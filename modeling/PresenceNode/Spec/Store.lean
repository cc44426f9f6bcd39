import PresenceNode.Lib.Durable
import PresenceNode.Spec.Frame
import Mathlib.Logic.Function.Basic

/-!
# The record store (`store.c`, `store.h`)

The flash is a map from NVS ids to the bytes last written there. `storeInit`,
`storeAppend` and `storeGet` are the source's functions; the first two are durable
programs, so that any of their flash operations may fail or be cut by a loss of power.

The record struct is a parameter (`Layout`): its size is the format number, so another
firmware is another layout.
-/

namespace PresenceNode

open LittleEndian

abbrev storePeriodS : ℕ := 30
abbrev storeCapacity : ℕ := 24 * 3600 / storePeriodS

def enoent : ℤ := 2
def eio : ℤ := 5
def eacces : ℤ := 13
def enodev : ℤ := 19

def nvsIdMeta : ℕ := 1
def nvsIdFormat : ℕ := 2
def nvsIdFloor : ℕ := 3
def nvsIdRec0 : ℕ := 0x100

/-! ## The record struct -/

/-- The memory image of a record struct: its size, its bytes, and the two fields the
store fills in. -/
structure Layout (ρ : Type) where
  size : ℕ
  image : ρ → List UInt8
  ofImage : List UInt8 → ρ
  seq : ρ → UInt32
  ts : ρ → UInt32
  stamp : UInt32 → UInt32 → ρ → ρ
  size_pos : 0 < size
  size_lt : size < 2 ^ 16
  image_length : ∀ r, (image r).length = size
  ofImage_image : ∀ r, ofImage (image r) = r
  seq_stamp : ∀ s t r, seq (stamp s t r) = s
  ts_stamp : ∀ s t r, ts (stamp s t r) = t

/-- `struct sntl_record` in memory: little-endian, no padding, 24 bytes. -/
def SntlRecord.image (r : SntlRecord) : List UInt8 :=
  enc 4 r.seq.toNat ++ enc 4 r.ts.toNat ++ [r.headcount, r.occS] ++ enc 2 r.dwellS.toNat ++
    [r.flags, r.batt] ++ enc 2 r.pm25.toNat ++ enc 2 r.pm10.toNat ++ enc 2 r.temp.toUInt16.toNat ++
    enc 2 r.rh.toUInt16.toNat ++ enc 2 r.voc.toUInt16.toNat

def SntlRecord.ofImage (bs : List UInt8) : SntlRecord where
  seq := .ofNat (dec (bs.take 4))
  ts := .ofNat (dec ((bs.drop 4).take 4))
  headcount := bs.getD 8 0
  occS := bs.getD 9 0
  dwellS := .ofNat (dec ((bs.drop 10).take 2))
  flags := bs.getD 12 0
  batt := bs.getD 13 0
  pm25 := .ofNat (dec ((bs.drop 14).take 2))
  pm10 := .ofNat (dec ((bs.drop 16).take 2))
  temp := (UInt16.ofNat (dec ((bs.drop 18).take 2))).toInt16
  rh := (UInt16.ofNat (dec ((bs.drop 20).take 2))).toInt16
  voc := (UInt16.ofNat (dec ((bs.drop 22).take 2))).toInt16

theorem SntlRecord.ofImage_image (r : SntlRecord) : SntlRecord.ofImage r.image = r := by
  have h4 : ∀ x : UInt32, UInt32.ofNat (dec (enc 4 x.toNat)) = x := fun x => by
    rw [dec_enc x.toNat_lt, UInt32.ofNat_toNat]
  have h2 : ∀ x : UInt16, UInt16.ofNat (dec (enc 2 x.toNat)) = x := fun x => by
    rw [dec_enc x.toNat_lt, UInt16.ofNat_toNat]
  have hs : ∀ x : Int16, (UInt16.ofNat (dec (enc 2 x.toUInt16.toNat))).toInt16 = x := fun x => by
    rw [h2, Int16.toInt16_toUInt16]
  obtain ⟨seq, ts, headcount, occS, dwellS, flags, batt, pm25, pm10, temp, rh, voc⟩ := r
  -- field by field; grouped to the right, each string is reached by dropping those before it
  unfold SntlRecord.ofImage SntlRecord.image
  simp only [List.append_assoc, SntlRecord.mk.injEq]
  exact ⟨h4 seq, h4 ts, rfl, rfl, h2 dwellS, rfl, rfl, h2 pm25, h2 pm10, hs temp, hs rh, hs voc⟩

/-- The layout of the firmware under `src`. -/
def sntlLayout : Layout SntlRecord where
  size := sntlRecordSize
  image := SntlRecord.image
  ofImage := SntlRecord.ofImage
  seq r := r.seq
  ts r := r.ts
  stamp s t r := { r with seq := s, ts := t }
  size_pos := by decide
  size_lt := by decide
  image_length := fun _ => rfl
  ofImage_image := SntlRecord.ofImage_image
  seq_stamp := fun _ _ _ => rfl
  ts_stamp := fun _ _ _ => rfl

/-! ## Flash and RAM -/

/-- The NVS contents: an id, and the bytes last written under it. -/
abbrev Flash := ℕ → Option (List UInt8)

/-- `struct meta`. -/
structure Meta where
  nextSeq : UInt32
  baseSec : UInt32
  deriving DecidableEq, Repr

def Meta.image (m : Meta) : List UInt8 := enc 4 m.nextSeq.toNat ++ enc 4 m.baseSec.toNat

def Meta.ofImage (bs : List UInt8) : Meta :=
  ⟨.ofNat (dec (bs.take 4)), .ofNat (dec ((bs.drop 4).take 4))⟩

/-- The static variables: whether `fs` is mounted, `meta`, `boot_offset`, `floor_seq`. -/
structure Ram where
  mounted : Bool
  counters : Meta
  bootOffset : UInt32
  floorSeq : UInt32
  deriving DecidableEq, Repr

/-- The static variables at power-up. -/
def Ram.zero : Ram := ⟨false, ⟨0, 0⟩, 0, 0⟩

variable {ρ : Type} (L : Layout ρ)

/-- `NVS_FORMAT`. -/
def Layout.format : UInt16 := .ofNat L.size

/-- The NVS id of a seq's slot. -/
def recId (seq : UInt32) : ℕ := nvsIdRec0 + (seq % .ofNat storeCapacity).toNat

/-- `nvs_read` into a buffer that holds `dst`: the length of the entry and the buffer
afterwards, or a negative code. -/
def nvsRead (mounted : Bool) (fl : Flash) (id : ℕ) (dst : List UInt8) : ℤ × List UInt8 :=
  if mounted then
    match fl id with
    | none => (-enoent, dst)
    | some bs => (bs.length, bs.take dst.length ++ dst.drop bs.length)
  else (-eacces, dst)

/-- `nvs_write`. -/
def nvsWrite (mounted : Bool) (id : ℕ) (bs : List UInt8) : Durable Flash ℤ :=
  if mounted then Durable.op fun fl => Function.update fl id (some bs) else pure (-eacces)

/-- `nvs_clear`. -/
def nvsClear : Durable Flash ℤ := Durable.op fun _ _ => none

/-- An operation that leaves the flash as it is (a readiness check, a mount). -/
def nvsTouch : Durable Flash ℤ := Durable.op id

/-! ## `store_init`, `store_append`, `store_get` -/

/-- `store_now`, at uptime `up` in milliseconds. -/
def storeNow (ram : Ram) (up : ℕ) : UInt32 := ram.bootOffset + .ofNat (up / 1000)

/-- What `store_init` takes `meta` to be: the entry if it has the right size. -/
def metaOf (fl : Flash) : Meta :=
  let (n, bs) := nvsRead true fl nvsIdMeta (List.replicate 8 0)
  -- a missing or short entry is an empty store
  if n ≠ 8 then ⟨0, 0⟩ else Meta.ofImage bs

/-- What `store_init` takes `format` to be. -/
def formatOf (fl : Flash) : UInt16 :=
  .ofNat (dec (nvsRead true fl nvsIdFormat (enc 2 0)).2)

/-- What `store_init` takes `floor_seq` to be when the format is unchanged. -/
def floorOf (fl : Flash) : UInt32 :=
  .ofNat (dec (nvsRead true fl nvsIdFloor (enc 4 0)).2)

/-- The branch of `store_init` for another format: erase, and write the three entries
anew. -/
def storeMigrate (ram : Ram) : Durable Flash (ℤ × Ram) := do
  let err ← nvsClear
  if err ≠ 0 then return (err, ram)
  -- clear leaves the fs unmounted
  let ram := { ram with mounted := false }
  let err ← nvsTouch
  if err ≠ 0 then return (err, ram)
  -- or the ring would still claim the records that were erased
  let ram := { ram with mounted := true, floorSeq := ram.counters.nextSeq }
  let err ← nvsWrite ram.mounted nvsIdFormat (enc 2 L.format.toNat)
  if err < 0 then return (-eio, ram)
  let err ← nvsWrite ram.mounted nvsIdFloor (enc 4 ram.floorSeq.toNat)
  if err < 0 then return (-eio, ram)
  let err ← nvsWrite ram.mounted nvsIdMeta ram.counters.image
  if err < 0 then return (-eio, ram)
  return (0, { ram with bootOffset := ram.counters.baseSec })

/-- `store_init`, from power-up. -/
def storeInit : Durable Flash (ℤ × Ram) := do
  let ready ← nvsTouch
  if ready ≠ 0 then return (-enodev, Ram.zero)
  let err ← nvsTouch
  if err ≠ 0 then return (err, Ram.zero)
  let err ← nvsTouch
  if err ≠ 0 then return (err, Ram.zero)
  let fl ← Durable.get
  let ram := { Ram.zero with mounted := true, counters := metaOf fl }
  if formatOf fl ≠ L.format then storeMigrate L ram
  else return (0, { ram with floorSeq := floorOf fl, bootOffset := ram.counters.baseSec })

/-- `store_next_seq`. -/
def storeNextSeq (ram : Ram) : UInt32 := ram.counters.nextSeq

/-- `store_oldest_seq`. -/
def storeOldestSeq (ram : Ram) : UInt32 :=
  let ring := if ram.counters.nextSeq > .ofNat storeCapacity
    then ram.counters.nextSeq - .ofNat storeCapacity else 0
  if ram.floorSeq > ring then ram.floorSeq else ring

/-- `store_append`: what it returns, the static variables and the caller's record. -/
def storeAppend (ram : Ram) (rec : ρ) (up : ℕ) : Durable Flash (ℤ × Ram × ρ) := do
  let out := L.stamp ram.counters.nextSeq (storeNow ram up) rec
  let err ← nvsWrite ram.mounted (recId (L.seq out)) (L.image out)
  if err < 0 then return (err, ram, out)
  -- RAM moves on first and stays there if the write below fails
  let ram := { ram with counters := ⟨ram.counters.nextSeq + 1, L.ts out⟩ }
  let err ← nvsWrite ram.mounted nvsIdMeta ram.counters.image
  return (if err < 0 then err else 0, ram, out)

/-- The part of `store_get` under the lock: read the slot and compare the seq. -/
def storeRead (ram : Ram) (fl : Flash) (seq : UInt32) : Except ℤ ρ :=
  let (n, bs) := nvsRead ram.mounted fl (recId seq) (List.replicate L.size 0)
  if n ≠ L.size then .error (-enoent)
  -- the slot may already have been recycled by a newer seq
  else if L.seq (L.ofImage bs) = seq then .ok (L.ofImage bs) else .error (-enoent)

/-- `store_get`. -/
def storeGet (ram : Ram) (fl : Flash) (seq : UInt32) : Except ℤ ρ :=
  if seq ≥ ram.counters.nextSeq ∨ seq < storeOldestSeq ram then .error (-enoent)
  else storeRead L ram fl seq

end PresenceNode
