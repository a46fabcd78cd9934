import Mathlib.Data.List.AList
import Mathlib.Data.List.Sort
import Mathlib.Data.Nat.Notation

/-! Python's dictionaries: association lists of distinct keys. -/
namespace IemMixer.Lib

abbrev Dict (κ ν : Type) [DecidableEq κ] := AList fun _ : κ => ν

namespace Dict
variable {κ ν : Type} [DecidableEq κ]

/-- `d.update(items)`: a later item of a key replaces an earlier one. -/
def update (d : Dict κ ν) (items : List (κ × ν)) : Dict κ ν := items.foldl (fun d item => d.insert item.1 item.2) d

/-- `dict(items)`. -/
def ofItems (items : List (κ × ν)) : Dict κ ν := update ∅ items

def items (d : Dict κ ν) : List (κ × ν) := d.entries.map fun entry => (entry.1, entry.2)

/-- `d.get(key, default)`. -/
def get (d : Dict κ ν) (key : κ) (default : ν) : ν := (d.lookup key).getD default

/-- `sorted(d.items())` of a dictionary whose keys are numbers. -/
def sortedItems (d : Dict ℕ ν) : List (ℕ × ν) := (items d).insertionSort fun one other => one.1 ≤ other.1

theorem mem_items {d : Dict κ ν} {key : κ} {value : ν} : (key, value) ∈ items d ↔ d.lookup key = some value := by
  rw [items, List.mem_map, ← Option.mem_def, AList.mem_lookup_iff]
  constructor
  · rintro ⟨⟨k, v⟩, member, same⟩
    obtain ⟨rfl, rfl⟩ := Prod.mk.inj same
    exact member
  · exact fun member => ⟨_, member, rfl⟩

theorem mem_sortedItems {d : Dict ℕ ν} {key : ℕ} {value : ν} :
    (key, value) ∈ sortedItems d ↔ d.lookup key = some value := by
  rw [sortedItems, (List.perm_insertionSort _ _).mem_iff, mem_items]

theorem mem_keys_of_get {d : Dict κ ν} {key : κ} {default : ν} (other : get d key default ≠ default) :
    key ∈ d.keys := by
  by_contra missing
  refine other ?_
  rw [get, AList.lookup_eq_none.mpr missing, Option.getD_none]

theorem get_insert_ne {d : Dict κ ν} {key other : κ} {value default : ν} (apart : other ≠ key) :
    get (d.insert key value) other default = get d other default := by
  rw [get, get, AList.lookup_insert_ne apart]

theorem get_erase_ne {d : Dict κ ν} {key other : κ} {default : ν} (apart : other ≠ key) :
    get (d.erase key) other default = get d other default := by
  rw [get, get, AList.lookup_erase_ne apart]

section
variable {α β : Type} [DecidableEq α] {tag : α → κ} {f : β → ν}

theorem lookup_update_other {d : Dict κ ν} {items : List (κ × ν)} {key : κ} (other : ∀ item ∈ items, item.1 ≠ key) :
    (update d items).lookup key = d.lookup key := by
  induction items generalizing d with
  | nil => rfl
  | cons item rest ih =>
    rw [update, List.foldl_cons, ← update, ih fun later member => other later (List.mem_cons_of_mem _ member)]
    exact AList.lookup_insert_ne (other item List.mem_cons_self).symm

theorem lookup_update_apart {d : Dict κ ν} {from_ : Dict α β} {key : κ} (apart : ∀ a, tag a ≠ key) :
    (update d ((items from_).map fun item => (tag item.1, f item.2))).lookup key = d.lookup key := by
  refine lookup_update_other fun item member => ?_
  obtain ⟨other, -, rfl⟩ := List.mem_map.mp member
  exact apart other.1

/-- After an update with another dictionary's items under their tags, a tagged key holds what the other
dictionary does. -/
theorem lookup_update_tagged (injective : Function.Injective tag) (d : Dict κ ν) (from_ : Dict α β) (a : α)
    (fresh : d.lookup (tag a) = none) :
    (update d ((items from_).map fun item => (tag item.1, f item.2))).lookup (tag a) = (from_.lookup a).map f := by
  have distinct : (from_.entries.map Sigma.fst).Nodup := from_.nodupKeys
  have held : from_.lookup a = List.dlookup a from_.entries := rfl
  rw [held, items]
  generalize from_.entries = entries at distinct
  induction entries generalizing d with
  | nil => simpa [update] using fresh
  | cons entry rest ih =>
    obtain ⟨b, v⟩ := entry
    rw [List.map_cons, List.nodup_cons] at distinct
    rw [List.map_cons, List.map_cons, update, List.foldl_cons, ← update]
    by_cases same : a = b
    · subst same
      rw [List.dlookup_cons_eq, lookup_update_other]
      · exact AList.lookup_insert d
      · intro item member
        simp only [List.map_map, List.mem_map, Function.comp_apply] at member
        obtain ⟨⟨b, w⟩, member, rfl⟩ := member
        intro same
        obtain rfl := injective same
        exact distinct.1 (List.mem_map.mpr ⟨⟨_, w⟩, member, rfl⟩)
    · rw [List.dlookup_cons_ne _ _ same]
      refine ih _ ?_ distinct.2
      rw [AList.lookup_insert_ne (injective.ne same)]
      exact fresh

end

end Dict
end IemMixer.Lib
