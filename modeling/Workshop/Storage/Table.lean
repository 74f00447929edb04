/-!
# Tables

Names with what they stand for.  An entry added later hides an earlier one of the same name.
-/

namespace Workshop

/-- A table of named entries, the latest first. -/
structure Table (α : Type) where
  entries : List (String × α)
deriving DecidableEq, Repr

namespace Table

variable {α : Type}

/-- A table without entries. -/
def empty : Table α := ⟨[]⟩

instance : Inhabited (Table α) := ⟨empty⟩

/-- The latest entry of a name among the given ones. -/
def lookup (name : String) : List (String × α) → Option α
  | [] => none
  | (key, entry) :: rest => if key = name then some entry else lookup name rest

/-- The entry of a name. -/
def find? (table : Table α) (name : String) : Option α :=
  lookup name table.entries

/-- Whether a name has an entry. -/
def contains (table : Table α) (name : String) : Bool :=
  (table.find? name).isSome

/-- Adds an entry. -/
def insert (table : Table α) (name : String) (entry : α) : Table α :=
  ⟨(name, entry) :: table.entries⟩

/-- Changes the latest entry of a name among the given ones. -/
def change (name : String) (f : α → α) : List (String × α) → List (String × α)
  | [] => []
  | (key, entry) :: rest =>
    if key = name then (key, f entry) :: rest else (key, entry) :: change name f rest

/-- Changes the entry of a name, if it has one. -/
def modify (table : Table α) (name : String) (f : α → α) : Table α :=
  ⟨change name f table.entries⟩

@[simp]
theorem find?_empty (name : String) : (empty : Table α).find? name = none := rfl

theorem find?_insert (table : Table α) (name other : String) (entry : α) :
    (table.insert name entry).find? other =
      if name = other then some entry else table.find? other := rfl

/-- A name that is inserted is contained. -/
theorem contains_insert (table : Table α) (name other : String) (entry : α) :
    (table.insert name entry).contains other =
      (decide (name = other) || table.contains other) := by
  simp only [contains, find?_insert]
  by_cases hsame : name = other <;> simp [hsame]

/-- A change is seen under its name. -/
theorem lookup_change (name other : String) (f : α → α) (entries : List (String × α)) :
    lookup other (change name f entries) =
      if name = other then (lookup other entries).map f else lookup other entries := by
  induction entries with
  | nil => simp [change, lookup]
  | cons entry rest ih =>
    obtain ⟨key, value⟩ := entry
    by_cases same : name = other
    · subst same
      by_cases h : key = name
      · simp [change, lookup, h]
      · simpa [change, lookup, h] using ih
    · by_cases h : key = name
      · subst h
        simp [change, lookup, same]
      · by_cases h' : key = other
        · subst h'
          simp [change, lookup, h, same]
        · simpa [change, lookup, h, h', same] using ih

/-- The same for a table. -/
theorem find?_modify (table : Table α) (name other : String) (f : α → α) :
    (table.modify name f).find? other =
      if name = other then (table.find? other).map f else table.find? other :=
  lookup_change name other f table.entries

/-! ## Lists of named entries -/

variable {name : String}

/-- The first entry counts. -/
theorem lookup_append (name : String) (first second : List (String × α)) :
    lookup name (first ++ second) = (lookup name first).or (lookup name second) := by
  induction first with
  | nil => rfl
  | cons entry rest ih =>
      simp only [List.cons_append, lookup]
      split
      · rfl
      · exact ih

/-- A name without entries. -/
theorem lookup_eq_none_iff {entries : List (String × α)} :
    lookup name entries = none ↔ name ∉ entries.map Prod.fst := by
  induction entries with
  | nil => simp [lookup]
  | cons entry rest ih =>
      by_cases hname : entry.1 = name
      · simp [lookup, hname]
      · simp [lookup, hname, ih, Ne.symm hname]

/-- What is found is an entry. -/
theorem mem_of_lookup {value : α} {entries : List (String × α)}
    (hfound : lookup name entries = some value) : (name, value) ∈ entries := by
  induction entries with
  | nil => cases hfound
  | cons entry rest ih =>
      simp only [lookup] at hfound
      split at hfound
      · rename_i hname
        cases hfound
        simp [← hname]
      · exact List.mem_cons_of_mem _ (ih hfound)

/-- Where names are distinct, the entry of a name is the only one of that name. -/
theorem filter_of_lookup {value : α} {entries : List (String × α)}
    (hnames : (entries.map Prod.fst).Nodup) (hfound : lookup name entries = some value) :
    entries.filter (fun entry => entry.1 == name) = [(name, value)] := by
  induction entries with
  | nil => cases hfound
  | cons entry rest ih =>
      rw [List.map_cons, List.nodup_cons] at hnames
      simp only [lookup] at hfound
      split at hfound
      · rename_i hname
        cases hfound
        have hrest : rest.filter (fun entry => entry.1 == name) = [] := by
          rw [List.filter_eq_nil_iff]
          intro other hmem hother
          apply hnames.1
          rw [hname, ← beq_iff_eq.1 hother]
          exact List.mem_map_of_mem hmem
        rw [List.filter_cons_of_pos (by simpa using hname), hrest, ← hname]
      · rename_i hname
        rw [List.filter_cons_of_neg (by simpa using hname)]
        exact ih hnames.2 hfound

/-- The only entry of a name is found. -/
theorem eq_of_lookup {value other : α} {entries : List (String × α)}
    (hnames : (entries.map Prod.fst).Nodup) (hfound : lookup name entries = some value)
    (hmem : (name, other) ∈ entries) : other = value := by
  have honly : (name, other) ∈ entries.filter (fun entry => entry.1 == name) :=
    List.mem_filter.2 ⟨hmem, beq_self_eq_true name⟩
  rw [filter_of_lookup hnames hfound, List.mem_singleton] at honly
  exact congrArg Prod.snd honly

/-- The first entry is changed. -/
theorem change_append (name : String) (f : α → α) (first second : List (String × α)) :
    change name f (first ++ second) =
      if (lookup name first).isSome then change name f first ++ second
      else first ++ change name f second := by
  induction first with
  | nil => rfl
  | cons entry rest ih =>
      simp only [List.cons_append, change, lookup]
      split
      · rfl
      · rw [ih]
        split <;> rfl

/-- A view of the entries that does not see a change is the same after it. -/
theorem map_change {β : Type} (f : α → α) (view : String × α → β)
    (hview : ∀ key value, view (key, f value) = view (key, value)) (name : String)
    (entries : List (String × α)) : (change name f entries).map view = entries.map view := by
  induction entries with
  | nil => rfl
  | cons entry rest ih =>
      simp only [change]
      split
      · rw [List.map_cons, hview, List.map_cons]
      · rw [List.map_cons, ih, List.map_cons]

/-- A change keeps the names. -/
theorem map_fst_change (name : String) (f : α → α) (entries : List (String × α)) :
    (change name f entries).map Prod.fst = entries.map Prod.fst :=
  map_change f Prod.fst (fun _ _ => rfl) name entries

/-- An entry of the changed list is the changed entry, or an unchanged one of another name. -/
theorem mem_change {f : α → α} {entries : List (String × α)} {entry : String × α}
    (hnames : (entries.map Prod.fst).Nodup) (hmem : entry ∈ change name f entries) :
    (∃ value, lookup name entries = some value ∧ entry = (name, f value)) ∨
      (entry.1 ≠ name ∧ entry ∈ entries) := by
  induction entries with
  | nil => cases hmem
  | cons first rest ih =>
      rw [List.map_cons, List.nodup_cons] at hnames
      simp only [change] at hmem
      split at hmem
      · rename_i hname
        rcases List.mem_cons.1 hmem with rfl | hmem
        · exact .inl ⟨first.2, by simp [lookup, hname], by rw [hname]⟩
        · refine .inr ⟨?_, List.mem_cons_of_mem _ hmem⟩
          rintro rfl
          exact hnames.1 (hname ▸ List.mem_map_of_mem hmem)
      · rename_i hname
        rcases List.mem_cons.1 hmem with rfl | hmem
        · exact .inr ⟨hname, List.mem_cons_self⟩
        · rcases ih hnames.2 hmem with ⟨value, hfound, rfl⟩ | ⟨hother, hmem⟩
          · exact .inl ⟨value, by simp [lookup, hname, hfound], rfl⟩
          · exact .inr ⟨hother, List.mem_cons_of_mem _ hmem⟩

/-- Entries behind a change. -/
theorem mem_of_mem_change {f : α → α} {entries : List (String × α)}
    {entry : String × α} (hmem : entry ∈ change name f entries) :
    entry ∈ entries ∨ ∃ value, entry.2 = f value := by
  induction entries with
  | nil => cases hmem
  | cons first rest ih =>
      simp only [change] at hmem
      split at hmem
      · rcases List.mem_cons.1 hmem with rfl | hmem
        · exact .inr ⟨first.2, rfl⟩
        · exact .inl (List.mem_cons_of_mem _ hmem)
      · rcases List.mem_cons.1 hmem with rfl | hmem
        · exact .inl List.mem_cons_self
        · rcases ih hmem with hmem | hchanged
          · exact .inl (List.mem_cons_of_mem _ hmem)
          · exact .inr hchanged

end Table
end Workshop
