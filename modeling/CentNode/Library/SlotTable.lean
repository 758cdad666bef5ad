import Mathlib.Data.Fintype.BigOperators

/-!
# Tables of slots

A table gives each of finitely many slots a value.  How many slots hold a value
changes with one slot at a time, and can be counted by going through the slots.
-/

namespace SlotTable

open List Function

variable {S V : Type} [Fintype S] [DecidableEq V]

/-- How many slots hold the value. -/
def holders (table : S → V) (value : V) : Nat := (Finset.univ.filter fun slot => table slot = value).card

variable {table : S → V} {slot : S} {value other : V}

theorem holders_pos : 0 < holders table value ↔ ∃ slot, table slot = value := by
  unfold holders
  rw [Finset.card_pos]
  constructor
  · rintro ⟨slot, inside⟩
    exact ⟨slot, (Finset.mem_filter.mp inside).2⟩
  · rintro ⟨slot, held⟩
    exact ⟨slot, Finset.mem_filter.mpr ⟨Finset.mem_univ slot, held⟩⟩

theorem holders_eq_zero : holders table value = 0 ↔ ∀ slot, table slot ≠ value := by
  rw [← not_exists, ← holders_pos, Nat.pos_iff_ne_zero, not_not]

theorem holders_congr {W : Type} [DecidableEq W] {second : S → W} {held : W}
    (same : ∀ slot, table slot = value ↔ second slot = held) :
    holders table value = holders second held :=
  congrArg Finset.card (Finset.filter_congr fun slot _ => same slot)

theorem holders_lt {W : Type} [DecidableEq W] {second : S → W} {held : W}
    (within : ∀ slot, table slot = value → second slot = held) (missing : table slot ≠ value)
    (there : second slot = held) : holders table value < holders second held := by
  refine Finset.card_lt_card (Finset.ssubset_iff_of_subset ?_ |>.mpr ⟨slot, ?_, ?_⟩)
  · exact Finset.monotone_filter_right Finset.univ fun slot _ => within slot
  · exact Finset.mem_filter.mpr ⟨Finset.mem_univ slot, there⟩
  · exact fun inside => missing (Finset.mem_filter.mp inside).2

theorem length_le_card {values : List V} (nodup : values.Nodup)
    (held : ∀ value ∈ values, ∃ slot, table slot = value) : values.length ≤ Fintype.card S := by
  rw [← toFinset_card_of_nodup nodup]
  refine (Finset.card_le_card fun value inside => ?_).trans
    (@Finset.card_image_le _ _ Finset.univ table _)
  obtain ⟨slot, same⟩ := held value (mem_toFinset.mp inside)
  exact Finset.mem_image.mpr ⟨slot, Finset.mem_univ slot, same⟩

theorem holders_update [DecidableEq S] (table : S → V) (slot : S) (value other : V) :
    holders (Function.update table slot value) other + (if table slot = other then 1 else 0) =
      holders table other + (if value = other then 1 else 0) := by
  have total : ∀ current : S → V, holders current other = (if current slot = other then 1 else 0) +
      ∑ place ∈ Finset.univ.erase slot, if current place = other then 1 else 0 := by
    intro current
    unfold holders
    rw [Finset.card_filter, ← Finset.add_sum_erase _ _ (Finset.mem_univ slot)]
  have rest : ∑ place ∈ Finset.univ.erase slot,
      (if Function.update table slot value place = other then 1 else 0) =
        ∑ place ∈ Finset.univ.erase slot, if table place = other then 1 else 0 := by
    refine Finset.sum_congr rfl fun place inside => ?_
    rw [update_of_ne (Finset.ne_of_mem_erase inside)]
  rw [total, total table, rest, update_self]
  omega

/-! ## Going through the slots -/

def allSlots (rows columns : Nat) : List (Fin rows × Fin columns) :=
  List.product (List.finRange rows) (List.finRange columns)

theorem mem_allSlots {rows columns : Nat} (slot : Fin rows × Fin columns) :
    slot ∈ allSlots rows columns :=
  mem_product.mpr ⟨mem_finRange _, mem_finRange _⟩

theorem nodup_allSlots (rows columns : Nat) : (allSlots rows columns).Nodup :=
  List.Nodup.product (nodup_finRange rows) (nodup_finRange columns)

theorem count_map_allSlots {rows columns : Nat} (table : Fin rows × Fin columns → V) (value : V) :
    ((allSlots rows columns).map table).count value = holders table value := by
  unfold holders
  rw [List.count, countP_map, countP_eq_length_filter,
    ← toFinset_card_of_nodup ((nodup_allSlots rows columns).filter _)]
  refine congrArg Finset.card (Finset.ext fun slot => ?_)
  rw [mem_toFinset, mem_filter, Finset.mem_filter]
  refine and_congr (iff_of_true (mem_allSlots slot) (Finset.mem_univ slot)) ?_
  exact beq_iff_eq

end SlotTable
