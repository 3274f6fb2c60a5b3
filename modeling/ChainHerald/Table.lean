namespace ChainHerald

/-- Entries are strictly ascending by key, so a table is determined by what it maps:
two tables with the same lookups are equal. -/
structure Table (κ α : Type) [Ord κ] where
  entries : List (κ × α)
  ascending : entries.Pairwise (fun a b => compare a.1 b.1 = .lt)

namespace Table

variable {κ α : Type} [Ord κ]

def empty : Table κ α := ⟨[], .nil⟩

def keys (t : Table κ α) : List κ := t.entries.map (·.1)

def values (t : Table κ α) : List α := t.entries.map (·.2)

def size (t : Table κ α) : Nat := t.entries.length

def isEmpty (t : Table κ α) : Bool := t.entries.isEmpty

def get? (t : Table κ α) (k : κ) : Option α :=
  (t.entries.find? fun e => compare k e.1 == .eq).map (·.2)

def contains (t : Table κ α) (k : κ) : Bool := (t.get? k).isSome

/-- The entry with the least key. -/
def first? (t : Table κ α) : Option (κ × α) := t.entries.head?

/-- The entry with the greatest key. -/
def last? (t : Table κ α) : Option (κ × α) := t.entries.getLast?

def filter (t : Table κ α) (p : κ → α → Bool) : Table κ α :=
  ⟨t.entries.filter fun e => p e.1 e.2, t.ascending.filter _⟩

def erase (t : Table κ α) (k : κ) : Table κ α := t.filter fun k' _ => compare k k' != .eq

def place (k : κ) (a : α) : List (κ × α) → List (κ × α)
  | [] => [(k, a)]
  | e :: rest =>
    match compare k e.1 with
    | .lt => (k, a) :: e :: rest
    | .eq => (k, a) :: rest
    | .gt => e :: place k a rest

theorem mem_place {k : κ} {a : α} {es : List (κ × α)} {e : κ × α} (h : e ∈ place k a es) :
    e = (k, a) ∨ e ∈ es := by
  induction es with
  | nil => simpa [place] using h
  | cons d rest ih =>
    simp only [place] at h
    split at h
    · simpa using h
    · rcases List.mem_cons.1 h with h | h
      · exact .inl h
      · exact .inr (List.mem_cons_of_mem _ h)
    · rcases List.mem_cons.1 h with h | h
      · exact .inr (h ▸ List.mem_cons_self)
      · exact (ih h).imp id (List.mem_cons_of_mem _)

theorem place_ascending [Std.TransOrd κ] (k : κ) (a : α) {es : List (κ × α)}
    (h : es.Pairwise (fun x y => compare x.1 y.1 = .lt)) :
    (place k a es).Pairwise (fun x y => compare x.1 y.1 = .lt) := by
  induction es with
  | nil => simp [place]
  | cons d rest ih =>
    obtain ⟨hd, hr⟩ := List.pairwise_cons.1 h
    simp only [place]
    split
    next hlt =>
      refine List.pairwise_cons.2 ⟨fun e he => ?_, h⟩
      rcases List.mem_cons.1 he with rfl | he
      · exact hlt
      · exact Std.TransCmp.lt_trans hlt (hd e he)
    next heq =>
      exact List.pairwise_cons.2
        ⟨fun e he => Std.TransCmp.lt_of_eq_of_lt heq (hd e he), hr⟩
    next hgt =>
      refine List.pairwise_cons.2 ⟨fun e he => ?_, ih hr⟩
      rcases mem_place he with rfl | he
      · exact Std.OrientedCmp.gt_iff_lt.1 hgt
      · exact hd e he

variable [Std.TransOrd κ]

/-- A later value replaces the one the key had. -/
def insert (t : Table κ α) (k : κ) (a : α) : Table κ α :=
  ⟨place k a t.entries, place_ascending k a t.ascending⟩

theorem isEmpty_insert (t : Table κ α) (k : κ) (a : α) : (t.insert k a).isEmpty = false := by
  simp only [isEmpty, insert]
  cases t.entries with
  | nil => rfl
  | cons e rest =>
    simp only [place]
    split <;> rfl

def ofList (es : List (κ × α)) : Table κ α := es.foldl (fun t e => t.insert e.1 e.2) empty

end Table

/-- A finite set, as the table of its members. -/
abbrev Members (κ : Type) [Ord κ] := Table κ Unit

namespace Members

variable {κ : Type} [Ord κ] [Std.TransOrd κ]

def add (s : Members κ) (k : κ) : Members κ := Table.insert s k ()

def ofList (ks : List κ) : Members κ := ks.foldl add Table.empty

end Members

end ChainHerald
