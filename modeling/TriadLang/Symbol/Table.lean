namespace TriadLang

/-- Names with their values, the last one that was defined first. -/
structure SymbolTable (α : Type) where
  entries : List (String × α) := []
  nodup_names : (entries.map Prod.fst).Nodup := by simp

namespace SymbolTable

variable {α : Type}

instance : Inhabited (SymbolTable α) := ⟨{}⟩

def names (t : SymbolTable α) : List String := t.entries.map Prod.fst

def size (t : SymbolTable α) : Nat := t.entries.length

def get? (t : SymbolTable α) (name : String) : Option α :=
  (t.entries.find? (·.1 == name)).map Prod.snd

def contains (t : SymbolTable α) (name : String) : Bool := (t.get? name).isSome

theorem contains_iff {t : SymbolTable α} {name : String} :
    t.contains name ↔ name ∈ t.names := by
  simp [contains, get?, names]

/-- The table with one more name, or `none` if the name is bound already. -/
def define? (t : SymbolTable α) (name : String) (value : α) : Option (SymbolTable α) :=
  if h : name ∈ t.names then
    none
  else
    some {
      entries := (name, value) :: t.entries
      nodup_names := List.nodup_cons.2 ⟨h, t.nodup_names⟩ }

theorem define?_eq_none_iff {t : SymbolTable α} {name : String} {value : α} :
    t.define? name value = none ↔ name ∈ t.names := by
  unfold define?
  split <;> simp_all

theorem entries_of_define? {t t' : SymbolTable α} {name : String} {value : α}
    (h : t.define? name value = some t') : t'.entries = (name, value) :: t.entries := by
  unfold define? at h
  split at h
  · cases h
  · cases h
    rfl

end SymbolTable

end TriadLang
