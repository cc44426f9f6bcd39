import PresenceNode.Spec.Recorder

/-!
# The halves of a record (`main.c`)

A record has a half from each sensor. `radarHalf` is the record of a node without a SEN5x,
`airHalf` that of a node whose radar is silent. A store may be seen through either, slot by slot.
-/

namespace PresenceNode

variable {ρ : Type}

/-- **A view of records** that leaves alone what the store reads and fills in. -/
structure View (L : Layout ρ) where
  of : ρ → ρ
  seq_of : ∀ r, L.seq (of r) = L.seq r
  stamp_of : ∀ s t r, L.stamp s t (of r) = of (L.stamp s t r)

namespace View

variable {L : Layout ρ} (V : View L)

/-- An entry of a slot. Bytes of another size are no record. -/
def entry (bs : List UInt8) : List UInt8 :=
  if bs.length = L.size then L.image (V.of (L.ofImage bs)) else bs

/-- A flash seen through it. -/
def flash (fl : Flash) : Flash := fun id => if id < nvsIdRec0 then fl id else (fl id).map V.entry

/-- A store seen through it. -/
def life (l : Life ρ) : Life ρ :=
  ⟨V.flash l.flash, l.ram, l.asked, l.served.map fun p => (p.1, V.of p.2)⟩

/-- An event seen through it. -/
def event : Event ρ → Event ρ
  | .boot fates => .boot fates
  | .append rec up fates => .append (V.of rec) up fates
  | .get seq => .get seq
  | .off => .off

end View

/-- **The radar's half**: nothing is known of the air. -/
def radarHalf : View sntlLayout where
  of r := { r with
    pm25 := sen5xUnknownU
    pm10 := sen5xUnknownU
    temp := sen5xUnknownS
    rh := sen5xUnknownS
    voc := sen5xUnknownS
    flags := r.flags ||| sntlFlagAqFault }
  seq_of _ := rfl
  stamp_of _ _ _ := rfl

/-- **The SEN5x's half**: the radar reports nothing. -/
def airHalf : View sntlLayout where
  of r := { r with
    headcount := 0
    occS := 0
    dwellS := 0
    flags := r.flags ||| sntlFlagSensorFault ||| sntlFlagNoTracker }
  seq_of _ := rfl
  stamp_of _ _ _ := rfl

namespace RecorderEvent

/-- A SEN5x that does not answer. -/
def deaf : Transfer := ⟨-eio, -eio, fun _ => 0⟩

/-- The event on a node whose SEN5x bus never got ready. -/
def withoutAir : RecorderEvent → RecorderEvent
  | .boot fates _ cmd => .boot fates false cmd
  | .frame bytes now => .frame bytes now
  | .poll _ => .poll deaf
  | .flush now _ up fates => .flush now deaf up fates
  | .off => .off

/-- The event on a node whose radar sends no frames. -/
def withoutRadar : RecorderEvent → Option RecorderEvent
  | .frame _ _ => none
  | e => some e

end RecorderEvent

end PresenceNode
