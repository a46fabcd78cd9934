import IemMixer.Persist.Names
import Mathlib.Tactic.Common

/-! What a state file's name shows is what it was made from, and no name is of two
kinds: a generation, a marker, a file moved aside or one of the fixed names. -/
namespace IemMixer.Persist
open Lib

private theorem digits_plain {n : ℕ} {c : Char} (held : c ∈ Nat.toDigits 10 n) : c.isDigit = true :=
  Nat.isDigit_of_mem_toDigits (by decide) (by decide) held

private theorem parse_digits {bound n : ℕ} {digits : List Char} (some_ : digits ≠ [])
    (plain : ∀ c ∈ digits, c.isDigit = true) (value : Nat.ofDigitChars 10 digits 0 = n)
    (small : n < bound) : parseUnsigned bound digits = some n := by
  have bare : unsigned digits = digits := by
    unfold unsigned
    split
    · exact absurd (plain '+' (by simp)) (by decide)
    · rfl
  have nonempty : digits.isEmpty = false := by simpa using some_
  have all : digits.all Char.isDigit = true := List.all_eq_true.mpr plain
  simp only [parseUnsigned]
  rw [bare, nonempty, all, value]
  simp [small]

theorem parseUnsigned_toDigits {bound n : ℕ} (small : n < bound) :
    parseUnsigned bound (Nat.toDigits 10 n) = some n :=
  parse_digits Nat.toDigits_ne_nil (fun _ => digits_plain) Nat.ofDigitChars_ten_toDigits small

@[simp] theorem parseU64_toDigits (n : UInt64) : parseU64 (Nat.toDigits 10 n.toNat) = some n := by
  rw [parseU64, parseUnsigned_toDigits n.toNat_lt, Option.map_some, UInt64.ofNat_toNat]

private theorem padded_plain {n : ℕ} {c : Char} (held : c ∈ (padded n).toList) :
    c.isDigit = true := by
  simp only [padded, String.toList_ofList, List.mem_append, List.mem_replicate] at held
  rcases held with ⟨-, rfl⟩ | held
  · decide
  · exact digits_plain held

@[simp] theorem parseU64_padded (n : UInt64) : parseU64 (padded n.toNat).toList = some n := by
  have parsed : parseUnsigned (2 ^ 64) (padded n.toNat).toList = some n.toNat := by
    refine parse_digits ?_ (fun _ => padded_plain) ?_ n.toNat_lt
    · simp [padded]
    · simp [padded, Nat.ofDigitChars_append]
  rw [parseU64, parsed, Option.map_some, UInt64.ofNat_toNat]

@[simp] theorem stripHead_append (head s : List Char) : stripHead head (head ++ s) = some s := by
  simp [stripHead]

@[simp] theorem stripTail_append (s tail : List Char) : stripTail tail (s ++ tail) = some s := by
  simp [stripTail]

theorem stripHead_eq_some {head s rest : List Char} (held : stripHead head s = some rest) :
    s = head ++ rest := by
  unfold stripHead at held
  split at held
  · rename_i starts
    cases held
    obtain ⟨rest, rfl⟩ := List.isPrefixOf_iff_prefix.mp starts
    simp
  · cases held

/-- The first `-r` after characters none of which is `-`. -/
private theorem splitOnce_after {s rest : List Char} (plain : ∀ c ∈ s, c ≠ '-') :
    splitOnce "-r".toList (s ++ "-r".toList ++ rest) = some (s, rest) := by
  induction s with
  | nil => simp [splitOnce]
  | cons c cs ih =>
    have other : ('-' == c) = false := by simpa using (plain c (by simp)).symm
    have tail := ih fun x held => plain x (by simp [held])
    simp only [String.reduceToList, List.append_assoc, List.cons_append, List.nil_append] at tail
    simp [splitOnce, List.isPrefixOf, other, tail]

private theorem splitOnce_none {s : List Char} (plain : ∀ c ∈ s, c ≠ '-') :
    splitOnce "-r".toList s = none := by
  induction s with
  | nil => simp [splitOnce]
  | cons c cs ih =>
    have other : ('-' == c) = false := by simpa using (plain c (by simp)).symm
    have tail := ih fun x held => plain x (by simp [held])
    simp only [String.reduceToList] at tail
    simp [splitOnce, List.isPrefixOf, other, tail]

private theorem padded_undashed {n : ℕ} {c : Char} (held : c ∈ (padded n).toList) : c ≠ '-' := by
  rintro rfl
  exact absurd (padded_plain held) (by decide)

/-- A generation's name shows what it was made from. -/
@[simp] theorem generationParts_generationName (seq : UInt64) (rev : Option UInt64) :
    generationParts (generationName seq rev) = some (seq, rev) := by
  cases rev with
  | none =>
    have stem : stripTail ".json".toList ((padded seq.toNat).toList ++ ".json".toList) =
      some (padded seq.toNat).toList := stripTail_append ..
    simp only [generationParts, generationName, String.toList_append, List.append_assoc,
      stripHead_append, Option.bind_eq_bind, Option.bind_some, stem]
    rw [splitOnce_none fun _ => padded_undashed]
    simp
  | some rev =>
    have stem : stripTail ".json".toList ((padded seq.toNat).toList ++
        ("-r".toList ++ (Nat.toDigits 10 rev.toNat ++ ".json".toList))) =
        some ((padded seq.toNat).toList ++ "-r".toList ++ Nat.toDigits 10 rev.toNat) := by
      rw [← List.append_assoc, ← List.append_assoc, stripTail_append]
    simp only [generationParts, generationName, String.toList_append, List.append_assoc,
      stripHead_append, Option.bind_eq_bind, Option.bind_some, Nat.toList_repr, stem]
    rw [← List.append_assoc, splitOnce_after fun _ => padded_undashed]
    simp

@[simp] theorem markRev_markName (rev : UInt64) : markRev (markName rev) = some rev := by
  simp only [markRev, markName, String.toList_append, stripHead_append, Option.bind_some,
    Nat.toList_repr, parseU64_toDigits]

theorem orphanNumber_asideName {n : ℕ} (small : n < 2 ^ 32) :
    orphanNumber (asideName saveTmp "orphan" n) = some (UInt32.ofNat n) := by
  have lead : (asideName saveTmp "orphan" n).toList = orphanStem.toList ++ Nat.toDigits 10 n := by
    simp [asideName, saveTmp, orphanStem]
  rw [orphanNumber, lead, stripHead_append, Option.bind_some, parseU32,
    parseUnsigned_toDigits small, Option.map_some]

inductive Kind where
  | current
  | tmp
  | new
  | baseline
  | generation (seq : UInt64) (rev : Option UInt64)
  | mark (rev : UInt64)
  | orphan (n : UInt32)
  | other
  deriving DecidableEq

/-- What a name is: a fixed one, or by what it shows. -/
def kind (name : String) : Kind :=
  if name = currentJson then .current
  else if name = saveTmp then .tmp
  else if name = saveNew then .new
  else if name = baselineJson then .baseline
  else match generationParts name, markRev name, orphanNumber name with
    | some p, _, _ => .generation p.1 p.2
    | none, some rev, _ => .mark rev
    | none, none, some n => .orphan n
    | none, none, none => .other

@[simp] theorem kind_currentJson : kind currentJson = .current := by decide

@[simp] theorem kind_saveTmp : kind saveTmp = .tmp := by decide

@[simp] theorem kind_saveNew : kind saveNew = .new := by decide

@[simp] theorem kind_baselineJson : kind baselineJson = .baseline := by decide

/-- Names of different kinds differ. -/
theorem ne_of_kind {a b : String} (apart : kind a ≠ kind b) : a ≠ b := fun same => apart (same ▸ rfl)

theorem kind_generation {name : String} {seq : UInt64} {rev : Option UInt64}
    (shown : generationParts name = some (seq, rev)) : kind name = .generation seq rev := by
  have fixed : ∀ f ∈ [currentJson, saveTmp, saveNew, baselineJson], name ≠ f := by
    rintro f held rfl
    have unshown : ∀ f ∈ [currentJson, saveTmp, saveNew, baselineJson],
      (generationParts f).isNone = true := by decide
    simpa [shown] using unshown name held
  simp [kind, fixed currentJson (by simp), fixed saveTmp (by simp), fixed saveNew (by simp),
    fixed baselineJson (by simp), shown]

/-- A name that starts like no generation's and is not a fixed one. -/
private theorem kind_led {name : String} {lead rest : List Char} (led : name.toList = lead ++ rest)
    (long : ∀ fixed ∈ [currentJson, saveTmp, saveNew, baselineJson], lead.isPrefixOf fixed.toList = false)
    (apart : stripHead "gen-".toList (lead ++ rest) = none) :
    kind name = match markRev name, orphanNumber name with
      | some rev, _ => .mark rev
      | none, some n => .orphan n
      | none, none => .other := by
  have fixed : ∀ f ∈ [currentJson, saveTmp, saveNew, baselineJson], name ≠ f := by
    rintro f held rfl
    have short := long name held
    rw [led, List.isPrefixOf_iff_prefix.mpr (List.prefix_append ..)] at short
    cases short
  have none_ : generationParts name = none := by
    rw [← led] at apart
    unfold generationParts
    rw [apart]
    rfl
  simp only [kind, fixed currentJson (by simp), fixed saveTmp (by simp), fixed saveNew (by simp),
    fixed baselineJson (by simp), none_, if_false]
  cases markRev name <;> cases orphanNumber name <;> rfl

theorem kind_mark {name : String} {rev : UInt64} (shown : markRev name = some rev) :
    kind name = .mark rev := by
  obtain ⟨rest, stem, -⟩ := Option.bind_eq_some_iff.mp shown
  rw [kind_led (stripHead_eq_some stem) (by decide) (by simp [markStem, stripHead]), shown]

theorem kind_orphan {name : String} {n : UInt32} (shown : orphanNumber name = some n) :
    kind name = .orphan n := by
  obtain ⟨rest, stem, -⟩ := Option.bind_eq_some_iff.mp shown
  have led := stripHead_eq_some stem
  have unmarked : markRev name = none := by simp [markRev, led, markStem, orphanStem, stripHead]
  rw [kind_led led (by decide) (by simp [orphanStem, stripHead]), unmarked, shown]

@[simp] theorem kind_damaged (n : ℕ) : kind (asideName currentJson "damaged" n) = .other := by
  have led : (asideName currentJson "damaged" n).toList =
      "current.json.damaged-".toList ++ Nat.toDigits 10 n := by
    simp [asideName, currentJson]
  have unmarked : markRev (asideName currentJson "damaged" n) = none := by
    simp [markRev, led, markStem, stripHead]
  have unorphaned : orphanNumber (asideName currentJson "damaged" n) = none := by
    simp [orphanNumber, led, orphanStem, stripHead]
  rw [kind_led led (by decide) (by simp [stripHead]), unmarked, unorphaned]

@[simp] theorem kind_generationName (seq : UInt64) (rev : Option UInt64) :
    kind (generationName seq rev) = .generation seq rev :=
  kind_generation (generationParts_generationName seq rev)

@[simp] theorem kind_markName (rev : UInt64) : kind (markName rev) = .mark rev :=
  kind_mark (markRev_markName rev)

/-- A name's entry among the generations. -/
private def generationEntry (name : String) : Option (UInt64 × String) :=
  (generationParts name).map fun p => (p.1, name)

private def markEntry (name : String) : Option (UInt64 × String) :=
  (markRev name).map fun rev => (rev, name)

/-- The revision a name shows. -/
def shownRev (name : String) : Option UInt64 :=
  match generationParts name with
  | some p => p.2
  | none => markRev name

private theorem markRev_none {name : String} {p : UInt64 × Option UInt64}
    (shown : generationParts name = some p) : markRev name = none := by
  cases marked : markRev name with
  | none => rfl
  | some rev =>
    have same := kind_generation shown
    rw [kind_mark marked] at same
    cases same

private theorem add_generations (listed : Listing) (name : String) :
    (listed.add name).generations = listed.generations ++ (generationEntry name).toList := by
  unfold Listing.add generationEntry
  cases generationParts name with
  | some p => simp
  | none =>
    cases markRev name with
    | some rev => simp
    | none => cases orphanNumber name <;> simp

private theorem add_marks (listed : Listing) (name : String) :
    (listed.add name).marks = listed.marks ++ (markEntry name).toList := by
  unfold Listing.add markEntry
  cases shown : generationParts name with
  | some p => simp [markRev_none shown]
  | none =>
    cases markRev name with
    | some rev => simp
    | none => cases orphanNumber name <;> simp

private theorem add_floor (listed : Listing) (name : String) :
    (listed.add name).floor = maxRev listed.floor (shownRev name) := by
  unfold Listing.add shownRev
  cases generationParts name with
  | some p => simp
  | none =>
    cases markRev name with
    | some rev => simp
    | none => cases orphanNumber name <;> cases listed.floor <;> simp [maxRev]

/-- What is gathered name by name is the names' entries in order. -/
private theorem gathered {τ : Type} (field : Listing → List τ) (entry : String → Option τ)
    (add : ∀ listed name, field (listed.add name) = field listed ++ (entry name).toList)
    (names : List String) (listed : Listing) :
    field (names.foldl Listing.add listed) = field listed ++ names.filterMap entry := by
  induction names generalizing listed with
  | nil => simp
  | cons name names ih =>
    rw [List.foldl_cons, ih, add, List.append_assoc, List.filterMap_cons]
    cases entry name <;> rfl

theorem mem_generations {names : List String} {seq : UInt64} {name : String} :
    (seq, name) ∈ (listing names).generations ↔
      name ∈ names ∧ ∃ rev, generationParts name = some (seq, rev) := by
  have all := gathered Listing.generations generationEntry add_generations names {}
  simp only [listing, List.mem_insertionSort, all, List.nil_append, List.mem_filterMap]
  constructor
  · rintro ⟨a, held, entry⟩
    obtain ⟨⟨seq, rev⟩, shown, ⟨⟩⟩ := Option.map_eq_some_iff.mp entry
    exact ⟨held, rev, shown⟩
  · rintro ⟨held, rev, shown⟩
    exact ⟨name, held, by rw [generationEntry, shown]; rfl⟩

theorem mem_marks {names : List String} {rev : UInt64} {name : String} :
    (rev, name) ∈ (listing names).marks ↔ name ∈ names ∧ markRev name = some rev := by
  have all := gathered Listing.marks markEntry add_marks names {}
  simp only [listing, List.mem_insertionSort, all, List.nil_append, List.mem_filterMap]
  constructor
  · rintro ⟨a, held, entry⟩
    obtain ⟨rev, shown, ⟨⟩⟩ := Option.map_eq_some_iff.mp entry
    exact ⟨held, shown⟩
  · rintro ⟨held, shown⟩
    exact ⟨name, held, by rw [markEntry, shown]; rfl⟩

private theorem le_maxRev {a b : Option UInt64} {r : UInt64}
    (below : (∃ f, a = some f ∧ r ≤ f) ∨ ∃ f, b = some f ∧ r ≤ f) :
    ∃ f, maxRev a b = some f ∧ r ≤ f := by
  cases a with
  | none => simpa [maxRev] using below
  | some x =>
    cases b with
    | none => simpa [maxRev] using below
    | some y =>
      simp only [Option.some.injEq, exists_eq_left', maxRev] at below ⊢
      split <;> simp only [UInt64.le_iff_toNat_le, UInt64.lt_iff_toNat_lt] at * <;> omega

/-- The floor is at least every revision a name shows. -/
theorem le_floor {names : List String} {name : String} {rev : UInt64} (held : name ∈ names)
    (shown : shownRev name = some rev) : ∃ f, (listing names).floor = some f ∧ rev ≤ f := by
  show ∃ f, (names.foldl Listing.add {}).floor = some f ∧ rev ≤ f
  generalize ({} : Listing) = listed
  have kept : ∀ (names : List String) (listed : Listing),
      (∃ f, listed.floor = some f ∧ rev ≤ f) →
        ∃ f, (names.foldl Listing.add listed).floor = some f ∧ rev ≤ f := by
    intro names
    induction names with
    | nil => exact fun _ => id
    | cons x xs ih => exact fun listed below => ih _ (by rw [add_floor]; exact le_maxRev (.inl below))
  induction names generalizing listed with
  | nil => cases held
  | cons x xs ih =>
    rcases List.mem_cons.mp held with rfl | held
    · refine kept xs _ ?_
      rw [add_floor]
      exact le_maxRev (.inr ⟨rev, shown, UInt64.le_refl rev⟩)
    · exact ih held _

instance (num : ν → ℕ) : IsTrans (ν × String) (Before num) where
  trans a b c := by
    rintro (ab | ⟨ab, first⟩) (bc | ⟨bc, second⟩)
    · exact .inl (ab.trans bc)
    · exact .inl (bc ▸ ab)
    · exact .inl (ab ▸ bc)
    · exact .inr ⟨ab.trans bc, first.trans second⟩

instance (num : ν → ℕ) : Std.Total (Before num) where
  total a b := by
    rcases Nat.lt_trichotomy (num a.1) (num b.1) with below | same | above
    · exact .inl (.inl below)
    · rcases le_total a.2 b.2 with first | first
      · exact .inl (.inr ⟨same, first⟩)
      · exact .inr (.inr ⟨same.symm, first⟩)
    · exact .inr (.inl above)

theorem generations_sorted (names : List String) :
    (listing names).generations.Pairwise (Before UInt64.toNat) :=
  List.pairwise_insertionSort _ _

/-- The last marker shows the highest revision a marker shows. -/
theorem le_last_mark {names : List String} {name : String} {rev : UInt64} (held : name ∈ names)
    (shown : markRev name = some rev) :
    ∃ last, (listing names).marks.getLast? = some last ∧ rev ≤ last.1 ∧
      markRev last.2 = some last.1 := by
  have entry : (rev, name) ∈ (listing names).marks := mem_marks.mpr ⟨held, shown⟩
  have some_ : (listing names).marks ≠ [] := List.ne_nil_of_mem entry
  have sorted : (listing names).marks.Pairwise (Before UInt64.toNat) :=
    List.pairwise_insertionSort _ _
  obtain ⟨lower, last, split⟩ := List.eq_nil_or_concat' (listing names).marks |>.resolve_left some_
  have shows : markRev last.2 = some last.1 :=
    (mem_marks.mp (by rw [split]; simp : (last.1, last.2) ∈ (listing names).marks)).2
  refine ⟨last, by rw [split]; simp, ?_, shows⟩
  rw [split] at entry sorted
  rcases List.mem_append.mp entry with early | same
  · rcases (List.pairwise_append.mp sorted).2.2 _ early last (by simp) with below | ⟨same, -⟩
    · exact UInt64.le_iff_toNat_le.mpr (Nat.le_of_lt below)
    · exact UInt64.le_iff_toNat_le.mpr (Nat.le_of_eq same)
  · rw [List.mem_singleton] at same
    rw [← same]
    exact UInt64.le_refl rev

end IemMixer.Persist
