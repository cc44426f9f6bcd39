import Mathlib.Data.List.Basic
import Mathlib.Data.List.Infix
import Mathlib.Algebra.BigOperators.Group.List.Basic
import Mathlib.Algebra.Ring.Nat

/-!
# Chains of type-length-value items

An item starts with a header of fixed size that states its type and the length of its
payload, and the next item follows the payload. Nothing says where the items end: a reader
goes on while the next one lies wholly inside the text.

* `Chain`: whole items at the start of a text, and what is left of it; `Longest`: as many of
  them as there are.
* `chain`, `rest`: the longest chain computed, and what it leaves; `longest_iff` says that it
  is the longest.
* `chain_append`, `chain_flatten`: items that were written are read back.
* `chain_drop`, `chain_locate`: a reader that has passed over some of the items sees the
  others, and where each of them lies.
-/

/-- How the header of an item states its type and the length of its payload. -/
structure ItemFormat (α τ : Type*) where
  hdr : ℕ
  type : List α → τ
  len : List α → ℕ
  hdr_pos : 0 < hdr

/-- An item. -/
structure Item (α τ : Type*) where
  type : τ
  payload : List α
  deriving DecidableEq, Repr

namespace ItemFormat

variable {α τ : Type*} (F : ItemFormat α τ)

/-- The room an item takes. -/
def size (it : Item α τ) : ℕ := F.hdr + it.payload.length

/-- The room items take. -/
def sizes (items : List (Item α τ)) : ℕ := (items.map F.size).sum

/-- The first item lies wholly inside the text. -/
def Whole (bs : List α) : Prop := F.hdr + F.len (bs.take F.hdr) ≤ bs.length

instance (bs : List α) : Decidable (F.Whole bs) := inferInstanceAs (Decidable (_ ≤ _))

/-- The first item, if it is whole. -/
def first (bs : List α) : Item α τ :=
  ⟨F.type (bs.take F.hdr), (bs.drop F.hdr).take (F.len (bs.take F.hdr))⟩

/-- The text after the first item. -/
def next (bs : List α) : List α := bs.drop (F.hdr + F.len (bs.take F.hdr))

theorem next_length {bs : List α} (h : F.Whole bs) : (F.next bs).length < bs.length := by
  have hpos := F.hdr_pos
  unfold Whole at h
  unfold next
  rw [List.length_drop]
  omega

/-- Whole items at the start of a text, and what is left of it. -/
inductive Chain : List α → List (Item α τ) → List α → Prop
  | nil (bs : List α) : Chain bs [] bs
  | cons {bs rest : List α} {items : List (Item α τ)} (hw : F.Whole bs)
      (ht : Chain (F.next bs) items rest) : Chain bs (F.first bs :: items) rest

/-- **The longest chain** of whole items. -/
def Longest (bs : List α) (items : List (Item α τ)) : Prop :=
  (∃ rest, F.Chain bs items rest) ∧
    ∀ others rest, F.Chain bs others rest → others.length ≤ items.length

/-- The longest chain, computed. -/
def chain (bs : List α) : List (Item α τ) :=
  if _h : F.Whole bs then F.first bs :: chain (F.next bs) else []
termination_by bs.length
decreasing_by exact F.next_length _h

/-- What the longest chain leaves. -/
def rest (bs : List α) : List α :=
  if _h : F.Whole bs then rest (F.next bs) else bs
termination_by bs.length
decreasing_by exact F.next_length _h

variable {F} {bs tail : List α} {items : List (Item α τ)}

theorem chain_whole (h : F.Whole bs) : F.chain bs = F.first bs :: F.chain (F.next bs) := by
  rw [chain, dif_pos h]

theorem chain_stop (h : ¬ F.Whole bs) : F.chain bs = [] := by rw [chain, dif_neg h]

theorem rest_whole (h : F.Whole bs) : F.rest bs = F.rest (F.next bs) := by rw [rest, dif_pos h]

theorem rest_stop (h : ¬ F.Whole bs) : F.rest bs = bs := by rw [rest, dif_neg h]

/-- Induction along a chain: a text whose first item is not whole, and one item before a
text. -/
theorem chain_induction {P : List α → Prop} (stop : ∀ bs, ¬ F.Whole bs → P bs)
    (item : ∀ bs, F.Whole bs → P (F.next bs) → P bs) (bs : List α) : P bs := by
  induction h : bs.length using Nat.strong_induction_on generalizing bs with
  | _ n ih =>
    by_cases hw : F.Whole bs
    · exact item bs hw (ih _ (h ▸ F.next_length hw) _ rfl)
    · exact stop bs hw

/-! ## What is left -/

theorem size_first (h : F.Whole bs) : F.size (F.first bs) = F.hdr + F.len (bs.take F.hdr) := by
  unfold Whole at h
  unfold size first
  simp only [List.length_take, List.length_drop]
  omega

theorem next_eq (h : F.Whole bs) : F.next bs = bs.drop (F.size (F.first bs)) := by
  rw [size_first h]
  rfl

@[simp] theorem sizes_nil : F.sizes ([] : List (Item α τ)) = 0 := rfl

@[simp] theorem sizes_cons (it : Item α τ) (items : List (Item α τ)) :
    F.sizes (it :: items) = F.size it + F.sizes items := by
  simp [sizes]

theorem sizes_append (a b : List (Item α τ)) : F.sizes (a ++ b) = F.sizes a + F.sizes b := by
  simp [sizes]

/-- A chain takes the room of its items, and leaves the rest. -/
theorem Chain.room {rest : List α} (h : F.Chain bs items rest) :
    F.sizes items ≤ bs.length ∧ rest = bs.drop (F.sizes items) := by
  induction h with
  | nil bs => simp
  | @cons bs rest items hw ht ih =>
    obtain ⟨hle, hrest⟩ := ih
    have hsize := size_first hw
    have hlen : (F.next bs).length = bs.length - F.size (F.first bs) := by
      rw [next_eq hw, List.length_drop]
    have hfit : F.size (F.first bs) ≤ bs.length := by rw [hsize]; exact hw
    rw [sizes_cons]
    refine ⟨by omega, ?_⟩
    rw [hrest, next_eq hw, List.drop_drop]

theorem chain_chain (bs : List α) : F.Chain bs (F.chain bs) (F.rest bs) := by
  induction bs using chain_induction (F := F) with
  | stop bs h => rw [chain_stop h, rest_stop h]; exact .nil bs
  | item bs h ih => rw [chain_whole h, rest_whole h]; exact .cons h ih

/-- The first items of the chain lie inside the text. -/
theorem sizes_take_le (bs : List α) (n : ℕ) : F.sizes ((F.chain bs).take n) ≤ bs.length := by
  have hle := (chain_chain (F := F) bs).room.1
  rw [← List.take_append_drop n (F.chain bs), sizes_append] at hle
  omega

/-! ## The longest chain -/

/-- Every chain is the start of the one that is computed. -/
theorem Chain.isPrefix {rest : List α} (h : F.Chain bs items rest) : items <+: F.chain bs := by
  induction h with
  | nil bs => exact List.nil_prefix
  | @cons bs rest items hw ht ih =>
    rw [chain_whole hw]
    exact List.cons_prefix_cons.2 ⟨rfl, ih⟩

/-- **The chain that is computed is the longest one**, and there is no other. -/
theorem longest_iff : F.Longest bs items ↔ items = F.chain bs := by
  constructor
  · rintro ⟨⟨rest, h⟩, hmax⟩
    exact h.isPrefix.eq_of_length_le (hmax _ _ (chain_chain bs))
  · rintro rfl
    exact ⟨⟨_, chain_chain bs⟩, fun others rest h => h.isPrefix.length_le⟩

/-! ## Passing over items -/

/-- A reader that has passed over the first `n` items sees the others. -/
theorem chain_drop (bs : List α) (n : ℕ) :
    F.chain (bs.drop (F.sizes ((F.chain bs).take n))) = (F.chain bs).drop n := by
  induction bs using chain_induction (F := F) generalizing n with
  | stop bs h => simp [chain_stop h]
  | item bs h ih =>
    rw [chain_whole h]
    cases n with
    | zero => simp [chain_whole h]
    | succ n =>
      rw [List.take_succ_cons, sizes_cons, ← List.drop_drop, ← next_eq h, ih n,
        List.drop_succ_cons]

/-- **Where an item of the chain lies**: after the items before it, and inside the text. -/
theorem chain_locate {before after : List (Item α τ)} {it : Item α τ}
    (h : F.chain bs = before ++ it :: after) :
    F.sizes before + F.size it ≤ bs.length ∧
      (bs.drop (F.sizes before + F.hdr)).take it.payload.length = it.payload := by
  have hcut := chain_drop (F := F) bs before.length
  rw [h, List.take_left, List.drop_left] at hcut
  have hw : F.Whole (bs.drop (F.sizes before)) := by
    by_contra hstop
    rw [chain_stop hstop] at hcut
    simp at hcut
  rw [chain_whole hw] at hcut
  have hit : F.first (bs.drop (F.sizes before)) = it := (List.cons.inj hcut).1
  have hsize := size_first hw
  have hpayload : it.payload.length = F.len ((bs.drop (F.sizes before)).take F.hdr) := by
    rw [hit] at hsize
    unfold size at hsize
    omega
  unfold Whole at hw
  rw [List.length_drop] at hw
  rw [hit] at hsize
  have hpos := F.hdr_pos
  refine ⟨by omega, ?_⟩
  rw [hpayload, ← List.drop_drop]
  exact congrArg Item.payload hit

/-! ## Writing items -/

/-- The text `w` is the item `it`, written. -/
structure IsItem (F : ItemFormat α τ) (it : Item α τ) (w : List α) : Prop where
  payload : w.drop F.hdr = it.payload
  length : w.length = F.size it
  type : F.type (w.take F.hdr) = it.type
  len : F.len (w.take F.hdr) = it.payload.length

/-- **An item that was written is read back**, whatever follows it. -/
theorem chain_append {it : Item α τ} {w : List α} (h : F.IsItem it w) (tail : List α) :
    F.chain (w ++ tail) = it :: F.chain tail := by
  have hlen := h.length
  unfold size at hlen
  have htake : (w ++ tail).take F.hdr = w.take F.hdr := List.take_append_of_le_length (by omega)
  have hw : F.Whole (w ++ tail) := by
    unfold Whole
    rw [htake, h.len, List.length_append]
    omega
  have hfirst : F.first (w ++ tail) = it := by
    unfold first
    rw [htake, h.type, h.len, List.drop_append_of_le_length (by omega), h.payload,
      List.take_left]
  have hnext : F.next (w ++ tail) = tail := by
    unfold next
    rw [htake, h.len, ← hlen, List.drop_left]
  rw [chain_whole hw, hfirst, hnext]

/-- **Items written one after another are read back**, and then the chain goes on with what
follows them. -/
theorem chain_flatten {enc : Item α τ → List α} (h : ∀ it ∈ items, F.IsItem it (enc it))
    (tail : List α) : F.chain ((items.map enc).flatten ++ tail) = items ++ F.chain tail := by
  induction items with
  | nil => rfl
  | cons it items ih =>
    have hit := h it List.mem_cons_self
    have hrest := ih fun x hx => h x (List.mem_cons_of_mem _ hx)
    rw [List.map_cons, List.flatten_cons, List.append_assoc, chain_append hit, hrest]
    rfl

/-- A text shorter than a header holds no item. -/
theorem chain_short (h : bs.length < F.hdr) : F.chain bs = [] := by
  apply chain_stop
  unfold Whole
  omega

/-! ## Looking an item up -/

/-- The first item of a type. -/
def lookup [DecidableEq τ] (type : τ) (items : List (Item α τ)) : Option (Item α τ) :=
  items.find? fun it => it.type = type

theorem lookup_cons_of_eq [DecidableEq τ] {type : τ} {it : Item α τ} (h : it.type = type) :
    lookup type (it :: items) = some it := by
  unfold lookup
  rw [List.find?_cons_of_pos (by simpa using h)]

theorem lookup_cons_of_ne [DecidableEq τ] {type : τ} {it : Item α τ} (h : it.type ≠ type) :
    lookup type (it :: items) = lookup type items := by
  unfold lookup
  rw [List.find?_cons_of_neg (by simpa using h)]

theorem lookup_none [DecidableEq τ] {type : τ} :
    lookup type items = none ↔ ∀ it ∈ items, it.type ≠ type := by
  simp [lookup, List.find?_eq_none]

theorem lookup_some [DecidableEq τ] {type : τ} {it : Item α τ} :
    lookup type items = some it ↔ it.type = type ∧
      ∃ before after, items = before ++ it :: after ∧ ∀ x ∈ before, x.type ≠ type := by
  simp [lookup, List.find?_eq_some_iff_append]

end ItemFormat
