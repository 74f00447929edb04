import Workshop.Command.Path

/-!
# Names of source files

The files that the command writes are named after the source file, without the
extension of source files.  A path names a source file if its last part, up to
slashes and idle dots, is a name with that extension; the part in front of the
extension must not be empty.

Main definitions:

- `Path.Idle`: what can follow the last part of a path without a meaning.
- `Path.NamesSource`: a path divided at the extension of source files.

Main results:

- Theorem `Path.withoutSourceExtension_of_namesSource`: what is left of the path
  of a source file.
- Theorem `Path.withoutSourceExtension_of_not_namesSource`: other paths stay as
  they are.
- Theorem `Path.withoutSourceExtension_append_ne`: with another extension the
  path is never the old one.
-/

namespace Workshop
namespace Path

/-! ## Idle ends -/

/-- Slashes, and single dots behind slashes. -/
inductive Idle : List Char → Prop
  | nil : Idle []
  | slash {rest : List Char} : Idle rest → Idle ('/' :: rest)
  | dot {rest : List Char} : Idle rest → Idle ('/' :: '.' :: rest)

variable {name stem before after : List Char} {path : String}

/-- Slashes at the end are dropped. -/
theorem trimReversed_slash (rest : List Char) :
    trimReversed ('/' :: rest) = trimReversed rest := by
  rw [trimReversed.eq_def]
  rfl

namespace Idle

variable {first second : List Char}

/-- Idle parts of a path. -/
theorem append (hfirst : Idle first) (hsecond : Idle second) : Idle (first ++ second) := by
  induction hfirst with
  | nil => exact hsecond
  | slash _ ih => exact .slash ih
  | dot _ ih => exact .dot ih

/-- How an idle part ends. -/
theorem getLast?_mem (hidle : Idle first) :
    ∀ c ∈ first.getLast?, c = '/' ∨ c = '.' := by
  induction hidle with
  | nil => simp
  | slash hrest ih =>
      cases hrest with
      | nil => simp
      | slash | dot => simpa [List.getLast?_cons_cons] using ih
  | dot hrest ih =>
      cases hrest with
      | nil => simp
      | slash | dot => simpa [List.getLast?_cons_cons] using ih

/-- An idle end is cut off. -/
theorem trimReversed_append (hidle : Idle first) (rest : List Char) :
    trimReversed (first.reverse ++ rest) = trimReversed rest := by
  induction hidle generalizing rest with
  | nil => rfl
  | slash _ ih =>
      rw [List.reverse_cons, List.append_assoc, ih]
      exact trimReversed_slash rest
  | dot _ ih =>
      rw [List.reverse_cons, List.reverse_cons, List.append_assoc, List.append_assoc, ih]
      rfl

end Idle

/-- Only an idle end is cut off. -/
theorem exists_idle_trimReversed (reversed : List Char) :
    ∃ after, Idle after ∧ reversed = after.reverse ++ trimReversed reversed := by
  fun_induction trimReversed reversed with
  | case1 => exact ⟨[], .nil, rfl⟩
  | case2 rest ih =>
      obtain ⟨after, hidle, hrest⟩ := ih
      refine ⟨after ++ ['/'], hidle.append (.slash .nil), ?_⟩
      rw [List.reverse_append, List.append_assoc, ← hrest]
      rfl
  | case3 => exact ⟨[], .nil, rfl⟩
  | case4 _ rest ih =>
      obtain ⟨after, hidle, hrest⟩ := ih
      refine ⟨after ++ ['/', '.'], hidle.append (.dot .nil), ?_⟩
      rw [List.reverse_append, List.append_assoc, ← hrest]
      rfl
  | case5 => exact ⟨[], .nil, rfl⟩
  | case6 => exact ⟨[], .nil, rfl⟩

/-! ## The last separator -/

section LastSeparator

variable {separator : Char} {before last : List Char}

/-- What stands behind the last separator is found from the end. -/
theorem takeWhile_reverse_append (hlast : separator ∉ last)
    (hbefore : ∀ c ∈ before.getLast?, c = separator) :
    ((before ++ last).reverse.takeWhile fun c => c != separator) = last.reverse ∧
      ((before ++ last).reverse.dropWhile fun c => c != separator) = before.reverse := by
  have hall : ∀ c ∈ last.reverse, (c != separator) = true := by
    intro c hc
    rw [bne_iff_ne]
    rintro rfl
    exact hlast (List.mem_reverse.1 hc)
  have hhead : ∀ c ∈ before.reverse.head?, ¬(c != separator) = true := by
    intro c hc
    rw [List.head?_reverse] at hc
    simp [hbefore c hc]
  rw [List.reverse_append, List.takeWhile_append_of_pos hall, List.dropWhile_append_of_pos hall]
  cases hreverse : before.reverse with
  | nil => simp
  | cons c rest =>
      rw [hreverse] at hhead
      obtain rfl : c = separator := by simpa using hhead c rfl
      simp

/-- A list is put together again from what stands behind its last separator and the rest. -/
theorem exists_lastSeparator (separator : Char) (reversed : List Char) :
    separator ∉ (reversed.takeWhile fun c => c != separator).reverse ∧
      ∀ c ∈ (reversed.dropWhile fun c => c != separator).reverse.getLast?, c = separator := by
  constructor
  · intro hmem
    have hall := List.all_eq_true.1 (List.all_takeWhile (p := fun c => c != separator)
      (l := reversed)) separator (List.mem_reverse.1 hmem)
    simp at hall
  · intro c hc
    rw [List.getLast?_reverse] at hc
    have hnot := List.head?_dropWhile_not (fun c => c != separator) reversed
    rw [hc] at hnot
    simpa using hnot

end LastSeparator

/-- A file name is cut at its last dot, if something stands in front of it. -/
theorem cutExtension?_eq_some_iff {extension : List Char} :
    cutExtension? name = some (stem, extension) ↔
      name = stem ++ '.' :: extension ∧ '.' ∉ extension ∧ stem ≠ [] ∧ name ≠ ['.', '.'] := by
  constructor
  · intro hcut
    obtain ⟨hlast, hbefore⟩ := exists_lastSeparator '.' name.reverse
    have hname := List.takeWhile_append_dropWhile (p := fun c => c != '.') (l := name.reverse)
    simp only [cutExtension?] at hcut
    split at hcut
    · rename_i c rest hdrop
      split at hcut
      · cases hcut
      · rename_i hgiven
        cases hcut
        rw [hdrop] at hbefore hname
        obtain rfl : c = '.' := hbefore c (by simp)
        simp only [Bool.or_eq_true, List.isEmpty_iff, decide_eq_true_eq, not_or] at hgiven
        refine ⟨?_, hlast, by simpa using hgiven.1, hgiven.2⟩
        have hwhole := congrArg List.reverse hname
        rw [List.reverse_reverse, List.reverse_append, List.reverse_cons] at hwhole
        exact hwhole.symm.trans (List.append_assoc _ _ _)
    · cases hcut
  · rintro ⟨rfl, hextension, hstem, hname⟩
    have hbefore : ∀ c ∈ (stem ++ ['.']).getLast?, c = '.' := by simp
    have hcut := takeWhile_reverse_append hextension hbefore
    rw [List.append_assoc, List.singleton_append, List.reverse_concat] at hcut
    simp only [cutExtension?, hcut.1, hcut.2]
    simp [hstem, hname]

/-! ## Source files -/

/-- A path divided at the extension of source files: what stands before the last part, the name in
front of the extension, and what follows without a meaning. -/
structure NamesSource (path : String) (before name after : List Char) : Prop where
  path_eq : path.toList = before ++ (name ++ ".ows".toList) ++ after
  before_slash : ∀ c ∈ before.getLast?, c = '/'
  name_ne_nil : name ≠ []
  name_no_slash : '/' ∉ name
  after_idle : Idle after

/-- The last name of a path. -/
theorem cut_of_namesSource (hnames : NamesSource path before name after) :
    cut path = (before, name ++ ".ows".toList) := by
  have hlast : '/' ∉ name ++ ".ows".toList := by simpa using hnames.name_no_slash
  have hcut := takeWhile_reverse_append hlast hnames.before_slash
  -- The last letter of the extension is neither a slash nor a dot.
  have htrim : trimReversed path.toList.reverse = (before ++ (name ++ ".ows".toList)).reverse := by
    rw [hnames.path_eq, List.reverse_append, hnames.after_idle.trimReversed_append]
    simp [trimReversed]
  simp only [cut, htrim, hcut, List.reverse_reverse]

/-- The extension of a source. -/
theorem cutExtension?_source (hname : name ≠ []) :
    cutExtension? (name ++ ".ows".toList) = some (name, "ows".toList) := by
  refine cutExtension?_eq_some_iff.2 ⟨rfl, by decide, hname, fun hdots => ?_⟩
  have hlength := congrArg List.length hdots
  simp at hlength

/-- A source file loses its extension.  If its name is the extension behind a single dot, and
nothing follows, the dot in front of the extension stays. -/
theorem withoutSourceExtension_of_namesSource (hnames : NamesSource path before name after) :
    withoutSourceExtension path =
      String.ofList (before ++ if name = ['.'] ∧ after = [] then ['.', '.'] else name) := by
  have hend : before ++ (name ++ ".ows".toList) = path.toList ↔ after = [] := by
    rw [hnames.path_eq]
    simp
  simp only [withoutSourceExtension, cut_of_namesSource hnames,
    cutExtension?_source hnames.name_ne_nil, if_pos, bareName, hend]
  simp

/-- A path with this extension names a source. -/
theorem exists_namesSource (hcut : cutExtension? (cut path).2 = some (stem, "ows".toList)) :
    ∃ before after, NamesSource path before stem after := by
  obtain ⟨after, hidle, hpath⟩ := exists_idle_trimReversed path.toList.reverse
  obtain ⟨hlast, hbefore⟩ := exists_lastSeparator '/' (trimReversed path.toList.reverse)
  obtain ⟨hname, _, hstem, _⟩ := cutExtension?_eq_some_iff.1 hcut
  have hwhole : (cut path).1 ++ (cut path).2 = (trimReversed path.toList.reverse).reverse := by
    rw [cut, ← List.reverse_append, List.takeWhile_append_dropWhile]
  refine ⟨(cut path).1, after, ?_, hbefore, hstem, fun hmem => hlast ?_, hidle⟩
  · have hreverse := congrArg List.reverse hpath
    rw [List.reverse_reverse, List.reverse_append, List.reverse_reverse, ← hwhole,
      hname] at hreverse
    exact hreverse
  · change '/' ∈ (cut path).2
    rw [hname]
    exact List.mem_append_left _ hmem

/-- All other paths stay as they are. -/
theorem withoutSourceExtension_of_not_namesSource
    (hnot : ¬∃ before name after, NamesSource path before name after) :
    withoutSourceExtension path = path := by
  simp only [withoutSourceExtension]
  split
  · rename_i stem extension hcut
    split
    · rename_i hextension
      subst hextension
      obtain ⟨before, after, hnames⟩ := exists_namesSource hcut
      exact absurd ⟨before, stem, after, hnames⟩ hnot
    · rfl
  · rfl

/-- The last character of a path that names a source file. -/
theorem NamesSource.getLast?_mem (hnames : NamesSource path before name after) :
    ∀ c ∈ path.toList.getLast?, c = 's' ∨ c = '/' ∨ c = '.' := by
  intro c hc
  rw [hnames.path_eq, List.getLast?_append] at hc
  cases hlast : after.getLast? with
  | some last =>
      rw [hlast] at hc
      cases hc
      exact .inr (hnames.after_idle.getLast?_mem c hlast)
  | none =>
      rw [hlast, List.getLast?_append, List.getLast?_append] at hc
      cases hc
      exact .inl rfl

/-- A path that gets another extension is never the path of the source file. -/
theorem withoutSourceExtension_append_ne {extension : String} {c : Char}
    (hlast : extension.toList.getLast? = some c) (hc : c ≠ 's' ∧ c ≠ '/' ∧ c ≠ '.')
    (path : String) : withoutSourceExtension path ++ extension ≠ path := by
  intro hsame
  have htext : (withoutSourceExtension path).toList ++ extension.toList = path.toList := by
    rw [← String.toList_append, hsame]
  by_cases hnames : ∃ before name after, NamesSource path before name after
  · obtain ⟨before, name, after, hnames⟩ := hnames
    have hpath : path.toList.getLast? = some c := by
      rw [← htext, List.getLast?_append, hlast]
      rfl
    rcases hnames.getLast?_mem c hpath with h | h | h
    · exact hc.1 h
    · exact hc.2.1 h
    · exact hc.2.2 h
  · rw [withoutSourceExtension_of_not_namesSource hnames] at htext
    rw [List.append_cancel_left (htext.trans (List.append_nil _).symm)] at hlast
    cases hlast

end Path
end Workshop
