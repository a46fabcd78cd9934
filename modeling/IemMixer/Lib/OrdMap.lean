import Mathlib.Data.List.Induction
import Mathlib.Data.List.Nodup
import Mathlib.Tactic.Common

/-! Ordered maps: the standard library's extensional tree map under the key type's
own order, and a map collected from a sequence of entries, a later entry of a
key replacing an earlier one. -/
namespace IemMixer.Lib
open Std

abbrev BTreeMap (K V : Type) [Ord K] := Std.ExtTreeMap K V compare

abbrev BTreeSet (K : Type) [Ord K] := Std.ExtTreeSet K compare

namespace BTreeMap

variable {K V : Type} [Ord K] [TransOrd K] [LawfulEqOrd K]

/-- A map from its entries, in order. -/
def collect (entries : List (K × V)) : BTreeMap K V :=
  entries.foldl (fun acc e => acc.insert e.1 e.2) ∅

/-- `entry(k).or_default()` followed by a write through it. -/
def update (m : BTreeMap K V) (k : K) (default : V) (f : V → V) : BTreeMap K V :=
  m.insert k (f (m[k]?.getD default))

/-- `PartialEq`: the same keys, with values that compare equal. -/
def peq (eq : V → V → Bool) (a b : BTreeMap K V) : Bool :=
  (a.toList.all fun e => b[e.1]?.any (eq e.2)) && b.toList.all fun e => e.1 ∈ a

theorem getElem?_insert_eq [DecidableEq K] (m : BTreeMap K V) (k a : K) (v : V) :
    (m.insert k v)[a]? = if k = a then some v else m[a]? := by
  rw [ExtTreeMap.getElem?_insert]
  simp only [Std.compare_eq_iff_eq]

theorem getElem?_erase_eq [DecidableEq K] (m : BTreeMap K V) (k a : K) :
    (m.erase k)[a]? = if k = a then none else m[a]? := by
  rw [ExtTreeMap.getElem?_erase]
  simp only [Std.compare_eq_iff_eq]

omit [LawfulEqOrd K] in
theorem collect_concat (entries : List (K × V)) (e : K × V) :
    collect (entries ++ [e]) = (collect entries).insert e.1 e.2 := by
  simp [collect]

/-- With distinct keys a collected map holds exactly its entries. -/
theorem getElem?_collect_iff (entries : List (K × V)) (distinct : (entries.map Prod.fst).Nodup)
    (k : K) (v : V) : (collect entries)[k]? = some v ↔ (k, v) ∈ entries := by
  classical
  induction entries using List.reverseRecOn with
  | nil => simp [collect]
  | append_singleton entries e ih =>
    obtain ⟨rest, -, apart⟩ := List.nodup_append.mp (by simpa using distinct)
    rw [collect_concat, getElem?_insert_eq]
    by_cases same : e.1 = k
    · have fresh : (k, v) ∉ entries := fun held =>
        apart k (List.mem_map.mpr ⟨(k, v), held, rfl⟩) e.1 (by simp) same.symm
      simp [same, fresh, Prod.ext_iff, eq_comm]
    · rw [if_neg same, ih rest]
      simp only [List.mem_append, List.mem_singleton, Prod.ext_iff]
      exact ⟨Or.inl, fun held => held.resolve_right fun eq => same eq.1.symm⟩

/-- What a collected map holds was one of its entries. -/
theorem mem_of_getElem?_collect (entries : List (K × V)) (k : K) (v : V)
    (held : (collect entries)[k]? = some v) : (k, v) ∈ entries := by
  classical
  induction entries using List.reverseRecOn with
  | nil => simp [collect] at held
  | append_singleton entries e ih =>
    rw [collect_concat, getElem?_insert_eq] at held
    split at held
    · rename_i same
      cases held
      simp [← same]
    · exact List.mem_append_left _ (ih held)

/-- A collected map has the keys of its entries. -/
theorem isSome_collect_iff (entries : List (K × V)) (k : K) :
    (collect entries)[k]?.isSome ↔ k ∈ entries.map Prod.fst := by
  classical
  induction entries using List.reverseRecOn with
  | nil => simp [collect]
  | append_singleton entries e ih =>
    rw [collect_concat, getElem?_insert_eq, List.map_append, List.mem_append, ← ih]
    by_cases same : e.1 = k
    · simp [same]
    · simp [same, Ne.symm same]

/-- When every entry's value is read off its key, only the keys matter. -/
theorem getElem?_collect_keyed [DecidableEq K] (keys : List K) (f : K → V) (k : K) :
    (collect (keys.map fun x => (x, f x)))[k]? = if k ∈ keys then some (f k) else none := by
  induction keys using List.reverseRecOn with
  | nil => simp [collect]
  | append_singleton keys x ih =>
    rw [List.map_append, List.map_cons, List.map_nil, collect_concat, getElem?_insert_eq, ih]
    by_cases same : x = k
    · simp [same]
    · simp [same, Ne.symm same]

theorem getElem?_collect_map [DecidableEq K] {α : Type} (xs : List α) (key : α → K) (f : α → V) (k : K) :
    (collect (xs.map fun x => (key x, f x)))[k]? = (xs.reverse.find? (key · == k)).map f := by
  induction xs using List.reverseRecOn with
  | nil => simp [collect]
  | append_singleton xs x ih =>
    rw [List.map_append, List.map_cons, List.map_nil, collect_concat, getElem?_insert_eq, ih, List.reverse_append,
      List.reverse_singleton, List.singleton_append, List.find?_cons]
    by_cases same : key x = k
    · simp [same]
    · rw [if_neg same, beq_false_of_ne same]

theorem fst_zip_sublist {α β : Type} (nodes : List α) (vals : List β) :
    ((nodes.zip vals).map Prod.fst).Sublist nodes := by
  induction nodes generalizing vals with
  | nil => simp
  | cons n rest ih =>
    cases vals with
    | nil => simp
    | cons v later => simpa using ih later

/-- Entries whose keys and values come from two lists side by side. -/
theorem getElem?_collect_zip {α : Type} (nodes : List α) (key : α → K) (vals : List V)
    (distinct : (nodes.map key).Nodup) (k : K) (v : V) :
    (collect ((nodes.zip vals).map fun p => (key p.1, p.2)))[k]? = some v ↔
      ∃ i : ℕ, nodes[i]?.map key = some k ∧ vals[i]? = some v := by
  have keys : (((nodes.zip vals).map fun p => (key p.1, p.2)).map Prod.fst).Nodup := by
    have firsts := (fst_zip_sublist nodes vals).map key
    rw [List.map_map] at firsts
    rw [List.map_map]
    exact distinct.sublist firsts
  rw [getElem?_collect_iff _ keys, List.mem_iff_getElem?]
  refine exists_congr fun i => ?_
  simp only [List.getElem?_map, Option.map_eq_some_iff, List.getElem?_zip_eq_some, Prod.exists,
    Prod.mk.injEq]
  constructor
  · rintro ⟨n, w, ⟨there, held⟩, rfl, rfl⟩
    exact ⟨⟨n, there, rfl⟩, held⟩
  · rintro ⟨⟨n, there, rfl⟩, held⟩
    exact ⟨n, v, ⟨there, held⟩, rfl, rfl⟩

omit [Ord K] [TransOrd K] [LawfulEqOrd K] in
/-- Distinct names lead to one place. -/
theorem name_inj {α : Type} {nodes : List α} {key : α → K} (distinct : (nodes.map key).Nodup)
    {i j : ℕ} {k : K} (at_i : nodes[i]?.map key = some k) (at_j : nodes[j]?.map key = some k) :
    i = j := by
  rw [← List.getElem?_map] at at_i at_j
  obtain ⟨boundI, sameI⟩ := List.getElem?_eq_some_iff.mp at_i
  obtain ⟨boundJ, sameJ⟩ := List.getElem?_eq_some_iff.mp at_j
  exact (distinct.getElem_inj_iff).mp (sameI.trans sameJ.symm)

/-- Writing one value of the list writes the entry of its name. -/
theorem collect_zip_set [DecidableEq K] {α : Type} {nodes : List α} {key : α → K} {vals : List V}
    (distinct : (nodes.map key).Nodup) {i : ℕ} {n : α} (new : V) (found : nodes[i]? = some n)
    (bound : i < vals.length) :
    collect ((nodes.zip (vals.set i new)).map fun p => (key p.1, p.2)) =
      (collect ((nodes.zip vals).map fun p => (key p.1, p.2))).insert (key n) new := by
  apply ExtTreeMap.ext_getElem?
  intro k
  apply Option.ext
  intro v
  rw [getElem?_collect_zip _ _ _ distinct, getElem?_insert_eq]
  by_cases here : key n = k
  · have at_i : nodes[i]?.map key = some k := by simp [found, here]
    rw [if_pos here]
    constructor
    · rintro ⟨j, named, there⟩
      rw [name_inj distinct named at_i, List.getElem?_set_self bound] at there
      exact there
    · intro same
      exact ⟨i, at_i, by rw [List.getElem?_set_self bound, same]⟩
  · rw [if_neg here, getElem?_collect_zip _ _ _ distinct]
    refine exists_congr fun j => and_congr_right fun named => ?_
    have apart : i ≠ j := by
      rintro rfl
      rw [found] at named
      exact here (Option.some.inj named)
    rw [List.getElem?_set_ne apart]

/-- The entries of a map are of different keys. -/
theorem nodup_keys_toList (m : BTreeMap K V) : (m.toList.map Prod.fst).Nodup := by
  rw [List.nodup_iff_pairwise_ne, List.pairwise_map]
  exact ExtTreeMap.distinct_keys_toList.imp fun apart same => apart (Std.compare_eq_iff_eq.mpr same)

theorem mem_keys_iff (m : BTreeMap K V) (k : K) : k ∈ m.keys ↔ ∃ v, m[k]? = some v := by
  rw [ExtTreeMap.mem_keys, ExtTreeMap.mem_iff_isSome_getElem?, Option.isSome_iff_exists]

theorem peq_iff {eq : V → V → Bool} {a b : BTreeMap K V} :
    peq eq a b = true ↔ ∀ k : K, Option.Rel (fun v w => eq v w = true) a[k]? b[k]? := by
  simp only [peq, Bool.and_eq_true, List.all_eq_true, decide_eq_true_eq, Prod.forall]
  simp only [ExtTreeMap.mem_toList_iff_getElem?_eq_some]
  constructor
  · rintro ⟨there, back⟩ k
    cases held : a[k]? with
    | some v =>
      have other := there k v held
      cases found : b[k]? with
      | none => simp [found] at other
      | some w => exact .some (by simpa [found] using other)
    | none =>
      cases found : b[k]? with
      | none => exact .none
      | some w =>
        have known := back k w found
        rw [ExtTreeMap.mem_iff_isSome_getElem?, held] at known
        cases known
  · intro same
    constructor
    · intro k v held
      have here := same k
      rw [held] at here
      cases found : b[k]? with
      | none => rw [found] at here; cases here
      | some w =>
        rw [found] at here
        cases here with
        | some equal => simpa using equal
    · intro k w found
      have here := same k
      rw [found] at here
      rw [ExtTreeMap.mem_iff_isSome_getElem?]
      cases held : a[k]? with
      | none => rw [held] at here; cases here
      | some v => rfl

theorem peq_comm {eq : V → V → Bool}
    (symm : ∀ v w, eq v w = eq w v) (a b : BTreeMap K V) : peq eq a b = peq eq b a := by
  have turn : ∀ a b : BTreeMap K V, peq eq a b = true → peq eq b a = true := by
    intro a b same
    rw [peq_iff] at same ⊢
    intro k
    have here := same k
    cases held : a[k]? with
    | none =>
      rw [held] at here
      cases found : b[k]? with
      | none => exact .none
      | some w => rw [found] at here; cases here
    | some v =>
      rw [held] at here
      cases found : b[k]? with
      | none => rw [found] at here; cases here
      | some w =>
        rw [found] at here
        cases here with
        | some equal => exact .some ((symm w v).trans equal)
  exact Bool.eq_iff_iff.mpr ⟨turn a b, turn b a⟩

theorem peq_self {eq : V → V → Bool}
    {a : BTreeMap K V} (same : ∀ (k : K) (v : V), a[k]? = some v → eq v v = true) : peq eq a a = true := by
  rw [peq_iff]
  intro k
  cases held : a[k]? with
  | none => exact .none
  | some v => exact .some (same k v held)

end BTreeMap

section
variable {S A K V : Type} {f : S → A → S} (key : A → K) (get : S → K → V) (act : A → V → V)

/-- A step leaves what is seen elsewhere than at its own key. -/
theorem foldl_elsewhere (other : ∀ s a k, key a ≠ k → get (f s a) k = get s k) {xs : List A} {k : K}
    (absent : k ∉ xs.map key) (s : S) : get (xs.foldl f s) k = get s k := by
  induction xs generalizing s with
  | nil => rfl
  | cons a rest ih =>
    simp only [List.map_cons, List.mem_cons, not_or] at absent
    rw [List.foldl_cons, ih absent.2, other s a k (Ne.symm absent.1)]

/-- With one step a key, what is seen at a step's key is what that step makes of it. -/
theorem foldl_there (other : ∀ s a k, key a ≠ k → get (f s a) k = get s k)
    (self : ∀ s a, get (f s a) (key a) = act a (get s (key a))) {xs : List A} (apart : (xs.map key).Nodup) {a : A}
    (member : a ∈ xs) (s : S) : get (xs.foldl f s) (key a) = act a (get s (key a)) := by
  induction xs generalizing s with
  | nil => cases member
  | cons b rest ih =>
    simp only [List.map_cons, List.nodup_cons] at apart
    rw [List.foldl_cons]
    rcases List.mem_cons.mp member with rfl | later
    · rw [foldl_elsewhere key get other apart.1, self]
    · have elsewhere : key b ≠ key a := fun same => apart.1 (same ▸ List.mem_map_of_mem later)
      rw [ih apart.2 later, other s b _ elsewhere]

end

end IemMixer.Lib
