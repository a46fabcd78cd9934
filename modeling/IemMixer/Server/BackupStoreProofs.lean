import Mathlib.Data.List.Induction
import IemMixer.Server.BackupStore

/-! Backup files are kept and ordered: a save takes a new name and no other file's, a prune takes
the old ones, and text order is the order of the saves while few share a timestamp. -/
namespace IemMixer.Server.BackupStore
open Lib Text

/-- A digit or an underscore. -/
def Plain (c : Char) : Prop := c.isDigit = true ∨ c = '_'

theorem plain_ne {c d : Char} (plain : Plain c) (other : d.isDigit = false ∧ d ≠ '_') : c ≠ d := by
  rintro rfl
  exact plain.elim (fun digit => Bool.false_ne_true (other.1.symm.trans digit)) other.2

theorem digit_small {c : Char} (digit : c.isDigit = true) : c.utf8Size = 1 := by
  rw [Char.utf8Size_eq_one_iff]
  simp only [Char.isDigit, Bool.and_eq_true, decide_eq_true_eq] at digit
  exact UInt32.le_trans digit.2 (by decide)

theorem splitAt_small {a : List Char} (small : ∀ c ∈ a, c.utf8Size = 1) (b : List Char) :
    splitAt a.length (a ++ b) = some (a, b) := by
  induction a with
  | nil => cases b <;> rfl
  | cons c rest ih =>
    have one : c.utf8Size = 1 := small c (by simp)
    simp [splitAt, one, ih fun d member => small d (List.mem_cons_of_mem _ member)]

theorem digitChar_digit {n : ℕ} (small : n < 10) : (Nat.digitChar n).isDigit = true := by
  have all : ∀ n < 10, (Nat.digitChar n).isDigit = true := by decide
  exact all n small

namespace Stamp

theorem three_digits (m : Fin 1000) : ∀ c ∈ three m, c.isDigit = true := by
  intro c member
  simp only [three, List.mem_cons, List.not_mem_nil, or_false] at member
  rcases member with rfl | rfl | rfl
  · exact digitChar_digit (by omega)
  · exact digitChar_digit (by omega)
  · exact digitChar_digit (by omega)

/-- The stem of its `n`-th name. -/
def stem (s : Stamp) (n : ℕ) : Name :=
  s.base ++ (match s.ms with
    | some m => '_' :: three m
    | none => []) ++ if n = 1 then [] else '_' :: Nat.toDigits 10 n

def name (s : Stamp) (n : ℕ) : Name := s.stem n ++ '.' :: json

theorem base_length (s : Stamp) : s.base.length = 15 := by
  obtain ⟨year, month, day, hour, minute, second⟩ := s.widths
  simp only [base, List.length_append, List.length_cons]
  omega

/-- Date and time as written: nineteen bytes. -/
def moment (s : Stamp) : List Char :=
  s.year ++ '-' :: s.month ++ '-' :: s.day ++ 'T' :: s.hour ++ ':' :: s.minute ++ ':' :: s.second

theorem part_digits (s : Stamp) : (∀ c ∈ s.year, c.isDigit = true) ∧ (∀ c ∈ s.month, c.isDigit = true) ∧
    (∀ c ∈ s.day, c.isDigit = true) ∧ (∀ c ∈ s.hour, c.isDigit = true) ∧ (∀ c ∈ s.minute, c.isDigit = true) ∧
    ∀ c ∈ s.second, c.isDigit = true := by
  have all := s.digits
  simp only [List.mem_append] at all
  refine ⟨?_, ?_, ?_, ?_, ?_, ?_⟩ <;> exact fun c member => all c (by simp [member])

theorem moment_small (s : Stamp) : ∀ c ∈ s.moment, c.utf8Size = 1 := by
  obtain ⟨year, month, day, hour, minute, second⟩ := s.part_digits
  intro c member
  simp only [moment, List.mem_append, List.mem_cons] at member
  rcases member with ((((member | rfl | member) | rfl | member) | rfl | member) | rfl | member) | rfl | member
  · exact digit_small (year c member)
  · rfl
  · exact digit_small (month c member)
  · rfl
  · exact digit_small (day c member)
  · rfl
  · exact digit_small (hour c member)
  · rfl
  · exact digit_small (minute c member)
  · rfl
  · exact digit_small (second c member)

theorem moment_length (s : Stamp) : s.moment.length = 19 := by
  obtain ⟨year, month, day, hour, minute, second⟩ := s.widths
  simp only [moment, List.length_append, List.length_cons]
  omega

/-- The replacements `timestampToFilename` makes. -/
def clean (part : List Char) : List Char :=
  (part.filter fun c => c ≠ '-' ∧ c ≠ ':').map fun c => if c = 'T' then '_' else c

theorem clean_append (a b : List Char) : clean (a ++ b) = clean a ++ clean b := by
  simp [clean]

theorem clean_digits {part : List Char} (digits : ∀ c ∈ part, c.isDigit = true) : clean part = part := by
  have other : ∀ c ∈ part, ∀ d : Char, d.isDigit = false → c ≠ d := by
    rintro c member d off rfl
    exact Bool.false_ne_true (off.symm.trans (digits c member))
  rw [clean, List.filter_eq_self.mpr fun c member => by simp [other c member '-' rfl, other c member ':' rfl]]
  refine (List.map_congr_left fun c member => ?_).trans (List.map_id part)
  exact if_neg (other c member 'T' rfl)

theorem clean_moment (s : Stamp) : clean s.moment = s.base := by
  obtain ⟨year, month, day, hour, minute, second⟩ := s.part_digits
  have dash : ∀ x, clean ('-' :: x) = clean x := fun _ => rfl
  have colon : ∀ x, clean (':' :: x) = clean x := fun _ => rfl
  have letter : ∀ x, clean ('T' :: x) = '_' :: clean x := fun _ => rfl
  simp only [moment, base, clean_append, dash, colon, letter, clean_digits year, clean_digits month, clean_digits day,
    clean_digits hour, clean_digits minute, clean_digits second]

theorem filename (s : Stamp) : timestampToFilename s.text = s.name 1 := by
  have cut : splitAt 19 s.text = some (s.moment, match s.ms with
      | some m => '.' :: three m ++ ['Z']
      | none => ['Z']) := by
    rw [← s.moment_length]
    exact splitAt_small s.moment_small _
  have stem := s.clean_moment
  unfold clean at stem
  unfold timestampToFilename name Stamp.stem
  simp only [cut, Option.map_some, Option.getD_some, Option.bind_some, stem]
  cases s.ms with
  | none => simp
  | some m =>
    have digits : (three m).all Char.isDigit = true := List.all_eq_true.mpr (three_digits m)
    have some' : three m ≠ [] := by simp [three]
    simp [digits, some']

theorem numbered_name (s : Stamp) (n : ℕ) : numbered (s.name 1) n = s.name n := by
  unfold numbered
  split
  · rename_i one
    rw [one]
  · rename_i more
    have suffix : ('.' :: json).isSuffixOf (s.name 1) = true := by simp [name]
    have stem : (s.name 1).take ((s.name 1).length - 5) = s.stem 1 := by
      simp [name, json]
    rw [if_pos suffix, stem]
    simp [name, Stamp.stem, more]

theorem base_plain (s : Stamp) : ∀ c ∈ s.base, Plain c := by
  obtain ⟨year, month, day, hour, minute, second⟩ := s.part_digits
  intro c member
  simp only [base, List.mem_append, List.mem_cons, or_assoc] at member
  rcases member with member | member | member | rfl | member | member | member
  · exact .inl (year c member)
  · exact .inl (month c member)
  · exact .inl (day c member)
  · exact .inr rfl
  · exact .inl (hour c member)
  · exact .inl (minute c member)
  · exact .inl (second c member)

/-- What of a stem stands after the second. -/
def rest (s : Stamp) (n : ℕ) : Name :=
  (match s.ms with
    | some m => '_' :: three m
    | none => []) ++ if n = 1 then [] else '_' :: Nat.toDigits 10 n

theorem stem_eq (s : Stamp) (n : ℕ) : s.stem n = s.base ++ s.rest n := List.append_assoc ..

theorem rest_plain (s : Stamp) (n : ℕ) : ∀ c ∈ s.rest n, Plain c := by
  intro c member
  rcases List.mem_append.mp member with inMs | inNumber
  · cases ms : s.ms with
    | none => simp [ms] at inMs
    | some m =>
      rw [ms] at inMs
      exact (List.mem_cons.mp inMs).symm.imp (three_digits m c) id
  · split at inNumber
    · cases inNumber
    · exact (List.mem_cons.mp inNumber).symm.imp (Nat.isDigit_of_mem_toDigits (by decide) (by decide)) id

/-- After the second comes an underscore, or nothing. -/
theorem rest_head (s : Stamp) (n : ℕ) : s.rest n = [] ∨ (s.rest n).head? = some '_' := by
  cases ms : s.ms with
  | some m => exact .inr (by simp [rest, ms])
  | none =>
    by_cases one : n = 1
    · exact .inl (by simp [rest, ms, one])
    · exact .inr (by simp [rest, ms, one])

theorem stem_plain (s : Stamp) (n : ℕ) : ∀ c ∈ s.stem n, Plain c := by
  rw [stem_eq]
  exact fun c member => (List.mem_append.mp member).elim (s.base_plain c) (s.rest_plain n c)

theorem splitExtension_name (s : Stamp) (n : ℕ) : splitExtension (s.name n) = some (s.stem n, json) := by
  have split : rsplitOnce '.' (s.name n) = some (s.stem n, json) := rsplitOnce_iff.mpr ⟨rfl, by decide⟩
  have some' : s.stem n ≠ [] := by
    intro none
    have long := congrArg List.length none
    rw [stem_eq, List.length_append, s.base_length] at long
    simp at long
  unfold splitExtension
  rw [split]
  cases stem : s.stem n with
  | nil => exact absurd stem some'
  | cons c rest => rfl

theorem name_json (s : Stamp) (n : ℕ) : isJson (s.name n) = true := by
  simp [isJson, splitExtension_name]

theorem name_stem (s : Stamp) (n : ℕ) : fileStem (s.name n) = s.stem n := by
  simp [fileStem, splitExtension_name]

theorem backupTime_stem (s : Stamp) (n : ℕ) : backupTime (s.stem n) = some s.base := by
  have small : ∀ c ∈ s.base, c.utf8Size = 1 := fun c member =>
    (s.base_plain c member).elim digit_small fun same => same ▸ rfl
  have cut : splitAt 15 (s.stem n) = some (s.base, s.rest n) := by
    rw [stem_eq, ← s.base_length]
    exact splitAt_small small _
  have bar : s.base.contains '_' = true := by simp [base]
  rw [backupTime, cut, Option.bind_some]
  simp only [bar, Bool.true_and]
  rcases s.rest_head n with none | head
  · simp [none]
  · simp [head]

/-- The name is no path out of the directory. -/
theorem name_inside (s : Stamp) (n : ℕ) : ((s.name n).contains '/' || (s.name n).contains '\\' ||
    decide (['.', '.'] <:+: s.name n)) = false := by
  have absent : ∀ d : Char, d.isDigit = false ∧ d ≠ '_' → d ≠ '.' → d ∉ json → d ∉ s.name n := by
    intro d other dot tail member
    rcases List.mem_append.mp member with inStem | member
    · exact plain_ne (s.stem_plain n d inStem) other rfl
    · exact (List.mem_cons.mp member).elim dot tail
  have one : (s.name n).count '.' = 1 := by
    have none : (s.stem n).count '.' = 0 := List.count_eq_zero.mpr fun member =>
      plain_ne (s.stem_plain n '.' member) (by decide) rfl
    rw [name, List.count_append, none]
    rfl
  have single : ¬['.', '.'] <:+: s.name n := by
    intro twice
    have := twice.sublist.count_le '.'
    rw [one] at this
    exact absurd this (by decide)
  simp only [Bool.or_eq_false_iff, decide_eq_false_iff_not]
  refine ⟨⟨?_, ?_⟩, single⟩
  · simpa using absent '/' (by decide) (by decide) (by decide)
  · simpa using absent '\\' (by decide) (by decide) (by decide)

theorem tmp_not_json (s : Stamp) (n : ℕ) : isJson (withExtension (s.name n) tmp) = false := by
  have split : rsplitOnce '.' (s.stem n ++ '.' :: tmp) = some (s.stem n, tmp) := rsplitOnce_iff.mpr ⟨rfl, by decide⟩
  rw [isJson, withExtension, name_stem, splitExtension, split]
  cases s.stem n <;> rfl

end Stamp

/-- The directory's `.json` files. -/
def jsons (dir : Dir) : Dir := dir.filter fun f => isJson f.1

section
variable {dir : Dir} {name other : Name} {text : String}

theorem has_iff : dir.has name = true ↔ name ∈ dir.map Prod.fst := by
  simp [Dir.has]

theorem jsons_names (ext : isJson name = true) : name ∈ (jsons dir).map Prod.fst ↔ name ∈ dir.map Prod.fst := by
  simp only [List.mem_map, jsons, List.mem_filter]
  constructor
  · rintro ⟨f, ⟨member, -⟩, same⟩
    exact ⟨f, member, same⟩
  · rintro ⟨f, member, rfl⟩
    exact ⟨f, ⟨member, ext⟩, rfl⟩

theorem jsons_remove_other (ext : isJson other = false) : jsons (dir.remove other) = jsons dir := by
  rw [jsons, Dir.remove, List.filter_filter]
  refine List.filter_congr fun f _ => ?_
  cases held : isJson f.1 with
  | false => rfl
  | true =>
    have apart : f.1 ≠ other := by
      rintro rfl
      exact Bool.false_ne_true (ext.symm.trans held)
    simp [apart]

/-- A file overwritten keeps its place and its name. -/
private theorem put_name (f : Name × String) : (if f.1 = other then (other, text) else f).1 = f.1 := by
  split
  · rename_i same
    exact same.symm
  · rfl

theorem jsons_put_other (ext : isJson other = false) : jsons (dir.put other text) = jsons dir := by
  unfold Dir.put
  split
  · rw [jsons, List.filter_map]
    have names : ((fun f : Name × String => isJson f.1) ∘ fun f => if f.1 = other then (other, text) else f) =
        fun f => isJson f.1 := by
      funext f
      exact congrArg isJson (put_name f)
    rw [names]
    refine (List.map_congr_left fun f member => ?_).trans (List.map_id _)
    have held := (List.mem_filter.mp member).2
    refine if_neg ?_
    rintro rfl
    exact Bool.false_ne_true (ext.symm.trans held)
  · simp [jsons, ext]

theorem remove_fresh (fresh : name ∉ dir.map Prod.fst) : dir.remove name = dir := by
  refine List.filter_eq_self.mpr fun f member => ?_
  have apart : f.1 ≠ name := fun same => fresh (same ▸ List.mem_map_of_mem member)
  simp [apart]

theorem jsons_remove (dir : Dir) (name : Name) : jsons (dir.remove name) = (jsons dir).remove name := by
  simp only [jsons, Dir.remove, List.filter_filter, Bool.and_comm]

/-- A name claimed and given up leaves the others as they were. -/
theorem remove_claimed (fresh : name ∉ dir.map Prod.fst) : Dir.remove (dir ++ [(name, text)]) name = dir := by
  have kept := remove_fresh fresh
  unfold Dir.remove at kept ⊢
  rw [List.filter_append, kept]
  simp

theorem put_claimed (fresh : name ∉ dir.map Prod.fst) {before : String} :
    Dir.put (dir ++ [(name, before)]) name text = dir ++ [(name, text)] := by
  have there : Dir.has (dir ++ [(name, before)]) name = true := has_iff.mpr (by simp)
  rw [Dir.put, if_pos there, List.map_append]
  congr 1
  · refine (List.map_congr_left fun f member => ?_).trans (List.map_id _)
    refine if_neg ?_
    rintro rfl
    exact fresh (List.mem_map_of_mem member)
  · simp

end

section
variable {dir dir' : Dir} {s : Stamp} {text : String} {fate : Fate}

/-- A write under a name just claimed, done or undone. -/
theorem write_claimed {n : ℕ} (fresh : s.name n ∉ dir.map Prod.fst) {written : Written} {ok : Bool}
    (wrote : atomicWrite (dir ++ [(s.name n, "")]) (s.name n) text written = (ok, dir')) :
    (ok = true → jsons dir' = jsons dir ++ [(s.name n, text)]) ∧
      (ok = false → jsons (dir'.remove (s.name n)) = jsons dir) := by
  have temporary := s.tmp_not_json n
  have apart : s.name n ≠ withExtension (s.name n) tmp := by
    intro same
    rw [← same, s.name_json] at temporary
    cases temporary
  have removed : Dir.remove (dir ++ [(s.name n, "")]) (withExtension (s.name n) tmp) =
      dir.remove (withExtension (s.name n) tmp) ++ [(s.name n, "")] := by
    simp [Dir.remove, apart]
  have fresh' : s.name n ∉ (dir.remove (withExtension (s.name n) tmp)).map Prod.fst := fun member =>
    fresh ((List.filter_sublist.map _).subset member)
  cases written with
  | done =>
    obtain ⟨rfl, rfl⟩ := Prod.mk.inj wrote
    refine ⟨fun _ => ?_, fun no => (by cases no)⟩
    have others : jsons (dir.remove (withExtension (s.name n) tmp)) = jsons dir := jsons_remove_other temporary
    rw [removed, put_claimed fresh', ← others]
    simp [jsons, s.name_json]
  | cut left =>
    cases left with
    | none =>
      obtain ⟨rfl, rfl⟩ := Prod.mk.inj wrote
      refine ⟨fun no => (by cases no), fun _ => ?_⟩
      rw [remove_claimed fresh]
    | some left =>
      obtain ⟨rfl, rfl⟩ := Prod.mk.inj wrote
      refine ⟨fun no => (by cases no), fun _ => ?_⟩
      rw [jsons_remove, jsons_put_other temporary, ← jsons_remove, remove_claimed fresh]
  | unsynced =>
    obtain ⟨rfl, rfl⟩ := Prod.mk.inj wrote
    refine ⟨fun no => (by cases no), fun _ => ?_⟩
    rw [removed, put_claimed fresh', remove_claimed fresh', jsons_remove_other temporary]

/-- A save takes the first free name of its timestamp, and no other file is touched; one that
fails leaves the files as they were. -/
theorem claim_spec (s : Stamp) (text : String) (fate : Fate) (dir : Dir) (numbers : List ℕ) :
    match claim (s.name 1) text fate dir numbers with
    | (.ok name, dir') => ∃ before n after, numbers = before ++ n :: after ∧ name = s.name n ∧
        (∀ m ∈ before, s.name m ∈ dir.map Prod.fst) ∧ s.name n ∉ dir.map Prod.fst ∧
        jsons dir' = jsons dir ++ [(s.name n, text)]
    | (.error _, dir') => jsons dir' = jsons dir := by
  induction numbers with
  | nil => rfl
  | cons n numbers ih =>
    simp only [claim, s.numbered_name]
    by_cases taken : dir.has (s.name n) = true
    · rw [if_pos taken]
      cases claimed : claim (s.name 1) text fate dir numbers with
      | mk result dir' =>
        rw [claimed] at ih
        cases result with
        | error e => exact ih
        | ok name =>
          obtain ⟨before, m, after, rfl, same, held, fresh, files⟩ := ih
          exact ⟨n :: before, m, after, rfl, same,
            List.forall_mem_cons.mpr ⟨has_iff.mp taken, held⟩, fresh, files⟩
    · have fresh : s.name n ∉ dir.map Prod.fst := fun member => taken (has_iff.mpr member)
      rw [if_neg taken]
      cases fate.claims (s.name n) with
      | false => rfl
      | true =>
        cases wrote : atomicWrite (dir ++ [(s.name n, "")]) (s.name n) text fate.written with
        | mk ok dir' =>
          have written := write_claimed fresh wrote
          cases ok with
          | true => exact ⟨[], n, numbers, rfl, rfl, by simp, fresh, written.1 rfl⟩
          | false => exact written.2 rfl

end

section
variable {B : Type} [Backup B] {w : World B}

/-- The file of a kept backup. -/
def file (k : Name × Dated B) : Name × String := (k.1, (Backup.write k.2.backup).getD "")

/-- The `.json` files are the kept backups', each under a name of its moment. -/
structure Sound (w : World B) : Prop where
  files : jsons w.dir = w.kept.map file
  written : ∀ k ∈ w.kept, (Backup.write k.2.backup).isSome
  named : ∀ k ∈ w.kept, ∃ n, k.1 = k.2.stamp.name n
  once : (w.kept.map Prod.fst).Nodup

theorem Sound.taken (sound : Sound w) {s : Stamp} {n : ℕ} :
    s.name n ∈ w.dir.map Prod.fst ↔ s.name n ∈ w.kept.map Prod.fst := by
  rw [← jsons_names (s.name_json n), sound.files, List.map_map]
  rfl

/-- A save that ended well: the backup goes under the first free name of its moment. -/
structure Saved (w w' : World B) (dated : Dated B) (n : ℕ) : Prop where
  counts : 1 ≤ n
  taken : ∀ m, 1 ≤ m → m < n → dated.stamp.name m ∈ w.kept.map Prod.fst
  fresh : dated.stamp.name n ∉ w.kept.map Prod.fst
  written : (Backup.write dated.backup).isSome
  kept : w'.kept = w.kept ++ [(dated.stamp.name n, dated)]

/-- A save takes a new name for the backup, or leaves the kept ones as they were. -/
theorem save_cases (sound : Sound w) (dated : Dated B) (fate : Fate) :
    ((∃ n, Saved w (step w (.save dated fate)) dated n) ∨ (step w (.save dated fate)).kept = w.kept) ∧
      jsons (step w (.save dated fate)).dir = (step w (.save dated fate)).kept.map file := by
  simp only [step, save]
  cases fate.folder with
  | false => exact ⟨.inr rfl, sound.files⟩
  | true =>
    cases written : Backup.write dated.backup with
    | none => exact ⟨.inr rfl, sound.files⟩
    | some text =>
      have claimed := claim_spec dated.stamp text fate w.dir (List.range' 1 maxSameName)
      simp only [dated.dated, dated.stamp.filename, Bool.not_true, Bool.false_eq_true, if_false]
      cases made : claim (dated.stamp.name 1) text fate w.dir (List.range' 1 maxSameName) with
      | mk result dir =>
        rw [made] at claimed
        cases result with
        | error e => exact ⟨.inr rfl, claimed.trans sound.files⟩
        | ok name =>
          obtain ⟨before, n, after, numbers, rfl, taken, fresh, files⟩ := claimed
          obtain ⟨k, -, rfl, tail⟩ := List.range'_eq_append_iff.mp numbers
          obtain ⟨here, -, -⟩ := List.range'_eq_cons_iff.mp tail.symm
          refine ⟨.inl ⟨n, by omega, fun m one less => ?_, fun member => fresh (sound.taken.mpr member),
            by simp [written], rfl⟩, ?_⟩
          · exact sound.taken.mp (taken m (List.mem_range'_1.mpr ⟨one, by omega⟩))
          · rw [files, sound.files, List.map_append]
            simp [file, written]

/-- A prune takes the files of the backups it takes, and no other. -/
theorem prune_files (sound : Sound w) (cutoff : List Char) :
    jsons (step w (.prune cutoff)).dir = (step w (.prune cutoff)).kept.map file := by
  have old : ∀ k ∈ w.kept, (!(isJson (file k).1 && (backupTime (fileStem (file k).1)).any (· < cutoff))) =
      !decide (k.2.stamp.base < cutoff) := by
    intro k member
    obtain ⟨n, named⟩ := sound.named k member
    simp only [file, named, Stamp.name_json, Stamp.name_stem, Stamp.backupTime_stem, Option.any_some, Bool.true_and]
  simp only [step, pruneBefore]
  have swapped : jsons (w.dir.filter fun f => !(isJson f.1 && (backupTime (fileStem f.1)).any (· < cutoff))) =
      (jsons w.dir).filter fun f => !(isJson f.1 && (backupTime (fileStem f.1)).any (· < cutoff)) := by
    simp only [jsons, List.filter_filter, Bool.and_comm]
  rw [swapped, sound.files, List.filter_map]
  exact congrArg _ (List.filter_congr old)

theorem Sound.start : Sound ({} : World B) where
  files := rfl
  written := by simp
  named := by simp
  once := List.nodup_nil

theorem Sound.step (sound : Sound w) (op : Op B) : Sound (step w op) := by
  cases op with
  | save dated fate =>
    obtain ⟨⟨n, saved⟩ | same, files⟩ := save_cases sound dated fate
    · refine ⟨files, ?_, ?_, ?_⟩ <;> rw [saved.kept]
      · exact List.forall_mem_append.mpr ⟨sound.written, by simpa using saved.written⟩
      · exact List.forall_mem_append.mpr ⟨sound.named, by simp⟩
      · rw [List.map_append]
        exact List.nodup_append.mpr ⟨sound.once, by simp, fun a inA b inB same => saved.fresh (by simp_all)⟩
    · refine ⟨files, ?_, ?_, ?_⟩ <;> rw [same]
      · exact sound.written
      · exact sound.named
      · exact sound.once
  | prune cutoff =>
    exact {
      files := prune_files sound cutoff
      written k member := sound.written k (List.mem_of_mem_filter member)
      named k member := sound.named k (List.mem_of_mem_filter member)
      once := sound.once.sublist (List.filter_sublist.map _) }

theorem sound_run (ops : List (Op B)) : Sound (run ops) := by
  induction ops using List.reverseRecOn with
  | nil => exact Sound.start
  | append_singleton ops op ih =>
    rw [run, List.foldl_append]
    exact ih.step op

/-- A kept backup's file is the one its save wrote. -/
theorem Sound.get (sound : Sound w) {k : Name × Dated B} (member : k ∈ w.kept) : w.dir.get k.1 = some (file k).2 := by
  obtain ⟨n, named⟩ := sound.named k member
  have there : file k ∈ jsons w.dir := by
    rw [sound.files]
    exact List.mem_map_of_mem member
  have once : ((jsons w.dir).map Prod.fst).Nodup := by
    rw [sound.files, List.map_map]
    exact sound.once
  unfold Dir.get
  cases found : w.dir.find? (·.1 == k.1) with
  | none => exact absurd (List.find?_eq_none.mp found _ (List.mem_of_mem_filter there)) (by simp [file])
  | some f =>
    have same : f.1 = k.1 := by simpa using List.find?_some found
    have inside : f ∈ jsons w.dir := by
      refine List.mem_filter.mpr ⟨List.mem_of_find?_eq_some found, ?_⟩
      rw [same, named]
      exact k.2.stamp.name_json n
    rw [List.inj_on_of_nodup_map once inside there same, Option.map_some]

theorem Sound.load (sound : Sound w) {k : Name × Dated B} (member : k ∈ w.kept) :
    load w.dir k.1 = .ok k.2.backup := by
  obtain ⟨n, named⟩ := sound.named k member
  obtain ⟨text, written⟩ := Option.isSome_iff_exists.mp (sound.written k member)
  have inside := k.2.stamp.name_inside n
  rw [← named] at inside
  unfold BackupStore.load
  rw [if_neg (Bool.eq_false_iff.mp inside), sound.get member]
  simp only [file, written, Option.getD_some, Backup.parse_write _ _ written]

end

theorem digitChar_lt {m n : ℕ} (less : m < n) (small : n < 10) : Nat.digitChar m < Nat.digitChar n := by
  have all : ∀ n < 10, ∀ m < n, Nat.digitChar m < Nat.digitChar n := by decide
  exact all n small m less

theorem dot_lt {n : ℕ} (small : n < 10) : '.' < Nat.digitChar n := by
  have all : ∀ n < 10, '.' < Nat.digitChar n := by decide
  exact all n small

/-- What a number adds to a name. -/
def tail (n : ℕ) : Name := (if n = 1 then [] else '_' :: Nat.toDigits 10 n) ++ '.' :: json

theorem tail_one : tail 1 = '.' :: json := rfl

theorem tail_more {n : ℕ} (more : 2 ≤ n) (small : n ≤ 9) : tail n = '_' :: Nat.digitChar n :: '.' :: json := by
  have one : n ≠ 1 := by omega
  have digits : Nat.toDigits 10 n = [Nat.digitChar n] := Nat.toDigits_of_lt_base (by omega)
  simp [tail, one, digits]

theorem tail_lt {m n : ℕ} (some' : 1 ≤ m) (less : m < n) (small : n ≤ 9) : tail m < tail n := by
  rw [tail_more (show 2 ≤ n by omega) small]
  by_cases one : m = 1
  · rw [one, tail_one, List.cons_lt_cons_iff]
    exact .inl (by decide)
  · rw [tail_more (by omega) (by omega), List.cons_lt_cons_iff]
    exact .inr ⟨rfl, List.cons_lt_cons_iff.mpr (.inl (digitChar_lt less (by omega)))⟩

namespace Stamp

theorem three_lt {x y : Fin 1000} (less : x < y) : three x < three y := by
  have bound := y.isLt
  have less' : x.val < y.val := less
  simp only [three, List.cons_lt_cons_iff]
  by_cases hundreds : x.val / 100 = y.val / 100
  · refine .inr ⟨congrArg _ hundreds, ?_⟩
    by_cases tens : x.val / 10 % 10 = y.val / 10 % 10
    · exact .inr ⟨congrArg _ tens, .inl (digitChar_lt (by omega) (by omega))⟩
    · exact .inl (digitChar_lt (by omega) (by omega))
  · exact .inl (digitChar_lt (by omega) (by omega))

theorem name_tail (s : Stamp) (n : ℕ) : s.name n = s.base ++ ((match s.ms with
    | some m => '_' :: three m
    | none => []) ++ tail n) := by
  simp [name, stem, tail]

theorem base_of_name {s t : Stamp} {m n : ℕ} (same : s.name m = t.name n) : s.base = t.base := by
  rw [name_tail, name_tail] at same
  exact (List.append_inj same (s.base_length.trans t.base_length.symm)).1

/-- Names are in the order of the saves: where a second is shared, the numbers of one timestamp
rise, and those without milliseconds and those with them keep out of each other's way. -/
theorem name_lt {s t : Stamp} {m n : ℕ} (order : s.le t) (m1 : 1 ≤ m) (m9 : m ≤ 9) (n1 : 1 ≤ n) (n9 : n ≤ 9)
    (shared : s.base = t.base → (s.ms = t.ms → m < n) ∧
      (∀ x, s.ms = none → t.ms = some x → m = 1 ∨ 100 * m ≤ x) ∧ (t.ms = none → s.ms ≠ none → 2 ≤ n)) :
    s.name m < t.name n := by
  rw [name_tail, name_tail]
  rcases order with earlier | ⟨same, order⟩
  · exact append_lt_append (s.base_length.trans t.base_length.symm) earlier _ _
  · obtain ⟨numbers, whole, parts⟩ := shared same
    rw [same]
    apply List.append_left_lt
    cases sMs : s.ms with
    | none =>
      cases tMs : t.ms with
      | none =>
        exact tail_lt m1 (numbers (by rw [sMs, tMs])) n9
      | some y =>
        by_cases one : m = 1
        · rw [one, tail_one]
          exact List.cons_lt_cons_iff.mpr (.inl (by decide))
        · have hundreds : m ≤ y.val / 100 := by
            have := (whole y sMs tMs).resolve_left one
            omega
          have bound := y.isLt
          rw [tail_more (by omega) m9]
          refine List.cons_lt_cons_iff.mpr (.inr ⟨rfl, List.cons_lt_cons_iff.mpr ?_⟩)
          rcases lt_or_eq_of_le hundreds with less | rfl
          · exact .inl (digitChar_lt less (by omega))
          · exact .inr ⟨rfl, List.cons_lt_cons_iff.mpr (.inl (dot_lt (by omega)))⟩
    | some x =>
      cases tMs : t.ms with
      | none =>
        rw [sMs, tMs] at order
        obtain rfl : x = 0 := Fin.le_zero_iff.mp order
        have more := parts tMs (by simp [sMs])
        rw [tail_more more n9]
        exact List.cons_lt_cons_iff.mpr (.inr ⟨rfl, List.cons_lt_cons_iff.mpr
          (.inl (digitChar_lt (by omega : 0 < n) (by omega)))⟩)
      | some y =>
        rw [sMs, tMs] at order
        rcases lt_or_eq_of_le (show x ≤ y from order) with less | rfl
        · have headed : '_' :: three x < '_' :: three y := List.cons_lt_cons_iff.mpr (.inr ⟨rfl, three_lt less⟩)
          exact append_lt_append (show ('_' :: three x).length = ('_' :: three y).length from rfl) headed _ _
        · exact List.append_left_lt (tail_lt m1 (numbers (by rw [sMs, tMs])) n9)

end Stamp

section
variable {B : Type} [Backup B] {w : World B} {kept : List (Name × Dated B)}

/-- Names rise in the order of the saves; each is one of its timestamp's first nine, numbered
from one without gaps. -/
structure Ordered (kept : List (Name × Dated B)) : Prop where
  rising : (kept.map Prod.fst).Pairwise (· < ·)
  numbered : ∀ k ∈ kept, ∃ n, 1 ≤ n ∧ n ≤ 9 ∧ n ≤ count kept k.2.stamp.base k.2.stamp.ms ∧ k.1 = k.2.stamp.name n
  complete : ∀ (s : Stamp) n, 1 ≤ n → n ≤ count kept s.base s.ms → s.name n ∈ kept.map Prod.fst

/-- The next name of a moment is past all that are kept. -/
theorem Ordered.past (ordered : Ordered kept) {s : Stamp} (later : ∀ k ∈ kept, k.2.stamp.le s) (room : Room kept s) :
    ∀ k ∈ kept, k.1 < s.name (count kept s.base s.ms + 1) := by
  intro k member
  obtain ⟨m, m1, m9, counted, named⟩ := ordered.numbered k member
  rw [named]
  refine Stamp.name_lt (later k member) m1 m9 (by omega) (by have := room.1; omega) fun same => ⟨?_, ?_, ?_⟩
  · intro ms
    rw [same, ms] at counted
    omega
  · intro x whole parts
    have few := room.2
    rw [parts] at few
    rw [same, whole] at counted
    rcases few with few | few
    · exact .inl (by omega)
    · exact .inr (by omega)
  · intro none some'
    have first := room.2
    simp only [none] at first ⊢
    by_contra low
    exact some' (first (by omega) k member same)

theorem count_append (kept : List (Name × Dated B)) (name : Name) (dated : Dated B) (base : Name)
    (ms : Option (Fin 1000)) : count (kept ++ [(name, dated)]) base ms =
      count kept base ms + if dated.stamp.base = base ∧ dated.stamp.ms = ms then 1 else 0 := by
  simp [count, List.countP_append, List.countP_cons]

/-- The number a save takes: the next of its timestamp. -/
theorem Ordered.number (ordered : Ordered w.kept) {w' : World B} {dated : Dated B} {n : ℕ}
    (later : ∀ k ∈ w.kept, k.2.stamp.le dated.stamp) (room : Room w.kept dated.stamp) (saved : Saved w w' dated n) :
    n = count w.kept dated.stamp.base dated.stamp.ms + 1 := by
  obtain fewer | same | more := lt_trichotomy n (count w.kept dated.stamp.base dated.stamp.ms + 1)
  · exact absurd (ordered.complete dated.stamp n saved.counts (by omega)) saved.fresh
  · exact same
  · obtain ⟨k, member, named⟩ := List.mem_map.mp (saved.taken _ (by omega) more)
    exact absurd (named ▸ ordered.past later room k member) (List.lt_irrefl _)

theorem Ordered.saved (ordered : Ordered w.kept) {w' : World B} {dated : Dated B} {n : ℕ}
    (later : ∀ k ∈ w.kept, k.2.stamp.le dated.stamp) (room : Room w.kept dated.stamp) (saved : Saved w w' dated n) :
    Ordered w'.kept := by
  obtain rfl := ordered.number later room saved
  rw [saved.kept]
  constructor
  · rw [List.map_append, List.pairwise_append]
    refine ⟨ordered.rising, List.pairwise_singleton _ _, ?_⟩
    simpa using fun name k member => ordered.past later room (name, k) member
  · intro k member
    simp only [count_append]
    rcases List.mem_append.mp member with before | last
    · obtain ⟨m, m1, m9, counted, named⟩ := ordered.numbered k before
      exact ⟨m, m1, m9, by omega, named⟩
    · obtain rfl := List.mem_singleton.mp last
      exact ⟨_, by omega, by have := room.1; omega, by simp, rfl⟩
  · intro s m m1 counted
    rw [count_append] at counted
    rw [List.map_append, List.mem_append]
    by_cases older : m ≤ count w.kept s.base s.ms
    · exact .inl (ordered.complete s m m1 older)
    · right
      split at counted
      · rename_i same
        have last : m = count w.kept s.base s.ms + 1 := by omega
        rw [last, ← same.1, ← same.2, List.map_singleton, List.mem_singleton, Stamp.name_tail, Stamp.name_tail, same.1,
          same.2]
      · omega

theorem Ordered.pruned (ordered : Ordered kept) (cutoff : List Char) :
    Ordered (kept.filter fun k => !decide (k.2.stamp.base < cutoff)) := by
  have counts : ∀ (base : Name) ms, count (kept.filter fun k => !decide (k.2.stamp.base < cutoff)) base ms =
      if base < cutoff then 0 else count kept base ms := by
    intro base ms
    rw [count, List.countP_filter]
    split
    · rename_i old
      rw [List.countP_eq_zero]
      rintro k - both
      simp only [Bool.and_eq_true, decide_eq_true_eq, Bool.not_eq_true', decide_eq_false_iff_not] at both
      exact both.2 (both.1.1 ▸ old)
    · rename_i stays
      refine List.countP_congr fun k _ => ?_
      simp only [Bool.and_eq_true, decide_eq_true_eq, Bool.not_eq_true', decide_eq_false_iff_not, and_iff_left_iff_imp]
      exact fun same => same.1 ▸ stays
  constructor
  · exact ordered.rising.sublist (List.filter_sublist.map _)
  · intro k member
    obtain ⟨m, m1, m9, counted, named⟩ := ordered.numbered k (List.mem_of_mem_filter member)
    have stays : ¬k.2.stamp.base < cutoff := by simpa using (List.mem_filter.mp member).2
    exact ⟨m, m1, m9, by rwa [counts, if_neg stays], named⟩
  · intro s m m1 counted
    rw [counts] at counted
    split at counted
    · omega
    · rename_i stays
      obtain ⟨k, member, named⟩ := List.mem_map.mp (ordered.complete s m m1 counted)
      obtain ⟨n, -, -, -, also⟩ := ordered.numbered k member
      have same : k.2.stamp.base = s.base := Stamp.base_of_name (also.symm.trans named)
      exact List.mem_map.mpr ⟨k, List.mem_filter.mpr ⟨member, by simpa [same] using stays⟩, named⟩

theorem run_concat (ops : List (Op B)) (op : Op B) : run (ops ++ [op]) = step (run ops) op := by
  rw [run, List.foldl_append]
  rfl

theorem kept_stamps (ops : List (Op B)) : ∀ k ∈ (run ops).kept, k.2.stamp ∈ stamps ops := by
  induction ops using List.reverseRecOn with
  | nil => simp [run]
  | append_singleton ops op ih =>
    intro k member
    rw [stamps, List.filterMap_append, List.mem_append]
    rw [run_concat] at member
    cases op with
    | save dated fate =>
      rcases (save_cases (sound_run ops) dated fate).1 with ⟨n, saved⟩ | same
      · rw [saved.kept] at member
        rcases List.mem_append.mp member with before | last
        · exact .inl (ih k before)
        · exact .inr (by simp [List.mem_singleton.mp last])
      · exact .inl (ih k (same ▸ member))
    | prune cutoff => exact .inl (ih k (List.mem_of_mem_filter member))

theorem ordered_run (ops : List (Op B)) (order : InOrder ops) (roomy : Roomy ops) : Ordered (run ops).kept := by
  induction ops using List.reverseRecOn with
  | nil => exact ⟨List.Pairwise.nil, by simp [run], fun s n n1 none => absurd n1 (by simp_all [run, count])⟩
  | append_singleton ops op ih =>
    rw [InOrder, stamps, List.filterMap_append, List.pairwise_append] at order
    obtain ⟨before, -, across⟩ := order
    have ordered := ih before fun first dated fate after same =>
      roomy first dated fate (after ++ [op]) (by simp [same])
    rw [run_concat]
    cases op with
    | save dated fate =>
      by_cases same : (step (run ops) (.save dated fate)).kept = (run ops).kept
      · rw [same]
        exact ordered
      · have room := roomy ops dated fate [] rfl (by rwa [run_concat])
        obtain ⟨n, saved⟩ := (save_cases (sound_run ops) dated fate).1.resolve_right same
        exact ordered.saved (fun k member => across _ (kept_stamps ops k member) _ (by simp)) room saved
    | prune cutoff => exact ordered.pruned cutoff

/-- The list's names fall in text order. -/
theorem list_falling (entries : Dir) :
    (list B entries).Pairwise fun a b => decide (b.filename ≤ a.filename) = true := by
  refine List.pairwise_mergeSort (fun a b c first second => ?_) (fun a b => ?_) _
  · exact decide_eq_true ((of_decide_eq_true second).trans (of_decide_eq_true first))
  · simpa using le_total _ _

variable (B) in
theorem names_falling (entries : Dir) : ((list B entries).map (·.filename)).Pairwise fun a b => b ≤ a :=
  List.pairwise_map.mpr ((list_falling entries).imp of_decide_eq_true)

/-- What the list says of a kept backup. -/
def entry (k : Name × Dated B) : BackupInfo := info k.1 (file k).2 k.2.backup

/-- In whatever order the directory is read, the list is the kept backups', the last saved first. -/
theorem list_newest (sound : Sound w) (ordered : Ordered w.kept) {entries : Dir} (any : entries.Perm w.dir) :
    list B entries = w.kept.reverse.map entry := by
  have all : ((entries.filter fun f => isJson f.1).filterMap fun f =>
      (Backup.parse f.2 : Option B).map (info f.1 f.2)).Perm (w.kept.map entry) := by
    have files : (entries.filter fun f => isJson f.1).Perm (w.kept.map file) := sound.files ▸ any.filter _
    refine (files.filterMap _).trans (.of_eq ?_)
    rw [List.filterMap_map]
    refine List.filterMap_eq_map_iff_forall_eq_some.mpr fun k member => ?_
    obtain ⟨text, written⟩ := Option.isSome_iff_exists.mp (sound.written k member)
    simp [entry, file, written, Backup.parse_write _ _ written]
  have falling : (w.kept.reverse.map entry).Pairwise fun a b => decide (b.filename ≤ a.filename) = true := by
    rw [List.map_reverse, List.pairwise_reverse, List.pairwise_map]
    exact (List.pairwise_map.mp ordered.rising).imp fun less => decide_eq_true (le_of_lt less)
  refine List.Perm.eq_of_pairwise ?_ (list_falling entries) falling ?_
  · intro a b inList inKept up down
    have member := (List.mergeSort_perm _ _).trans all |>.subset inList
    obtain ⟨k, inK, rfl⟩ := List.mem_map.mp member
    obtain ⟨l, inL, rfl⟩ := List.mem_map.mp inKept
    have same : k.1 = l.1 := le_antisymm (of_decide_eq_true down) (of_decide_eq_true up)
    rw [List.inj_on_of_nodup_map sound.once inK (List.mem_reverse.mp inL) same]
  · exact (List.mergeSort_perm _ _).trans (all.trans (by rw [List.map_reverse]; exact (List.reverse_perm _).symm))

variable (B) in
/-- The `.json` files are the kept backups', read back by their names and never changed; and they
are listed in the order of the saves, reversed, while every save finds room. -/
theorem backups_kept (ops : List (Op B)) :
    (jsons (run ops).dir).map Prod.fst = (run ops).kept.map Prod.fst ∧
    (∀ k ∈ (run ops).kept, load (run ops).dir k.1 = .ok k.2.backup) ∧
    (∀ op, ∀ k ∈ (run ops).kept, k ∈ (run (ops ++ [op])).kept →
      (run (ops ++ [op])).dir.get k.1 = (run ops).dir.get k.1) ∧
    (InOrder ops → Roomy ops → ∀ entries, entries.Perm (run ops).dir →
      list B entries = (run ops).kept.reverse.map entry) := by
  have sound := sound_run ops
  refine ⟨?_, fun k member => sound.load member, fun op k before after => ?_, fun order roomy entries any => ?_⟩
  · rw [sound.files, List.map_map]
    rfl
  · rw [(sound_run (ops ++ [op])).get after, sound.get before]
  · exact list_newest sound (ordered_run ops order roomy) any

end

structure Copy where
  text : List Char

instance : Backup Copy where
  timestamp c := c.text
  write c := some (String.ofList c.text)
  parse text := some ⟨text.toList⟩
  parse_write b text made := by
    cases made
    simp
  levelCount _ := 0
  mixCount _ := 0

def noon : Stamp where
  year := ['2', '0', '2', '6']
  month := ['0', '9']
  day := ['2', '7']
  hour := ['1', '2']
  minute := ['0', '0']
  second := ['0', '0']
  ms := some ⟨123, by decide⟩
  widths := by decide
  digits := List.all_eq_true.mp rfl

def saveNoon : Op Copy := .save ⟨⟨noon.text⟩, noon, rfl⟩ {}

def failNoon : Op Copy := .save ⟨⟨noon.text⟩, noon, rfl⟩ { written := .unsynced }

theorem backups_kept_noon :
    list Copy (run [failNoon, saveNoon, saveNoon]).dir =
      (run [failNoon, saveNoon, saveNoon]).kept.reverse.map entry := by
  refine (backups_kept Copy [failNoon, saveNoon, saveNoon]).2.2.2 ?_ ?_ _ (.refl _)
  · have all : stamps [failNoon, saveNoon, saveNoon] = List.replicate 3 noon := rfl
    rw [InOrder, all]
    exact List.pairwise_replicate.mpr (Or.inr (Or.inr ⟨rfl, le_rfl⟩))
  · intro before dated fate after same _
    rcases before with _ | ⟨first, _ | ⟨second, _ | ⟨third, rest⟩⟩⟩
    · cases same
      exact ⟨by decide +kernel, .inl (by decide +kernel)⟩
    · cases same
      exact ⟨by decide +kernel, .inl (by decide +kernel)⟩
    · cases same
      exact ⟨by decide +kernel, .inl (by decide +kernel)⟩
    · simp at same

theorem ten_of_one_millisecond :
    InOrder (List.replicate 10 saveNoon) ∧ (run (List.replicate 10 saveNoon)).kept.length = 10 ∧
      (list Copy (run (List.replicate 10 saveNoon)).dir).map (·.filename) ≠
        (run (List.replicate 10 saveNoon)).kept.reverse.map Prod.fst := by
  refine ⟨?_, by decide +kernel, fun same => ?_⟩
  · have all : stamps (List.replicate 10 saveNoon) = List.replicate 10 noon := rfl
    rw [InOrder, all]
    exact List.pairwise_replicate.mpr (Or.inr (Or.inr ⟨rfl, le_rfl⟩))
  · have falling := names_falling Copy (run (List.replicate 10 saveNoon)).dir
    rw [same] at falling
    exact absurd falling (by decide +kernel)

end IemMixer.Server.BackupStore
