import ChainHerald.Proofs.Dispatch

/-!
# The same registrations with other decoders

`Registration.recode` has the registrations of one job decode in another way. Nothing but the offers
depends on how they do, so a herald that has heard of them so keeps the same books.
-/

namespace ChainHerald

namespace Table

variable {κ α β : Type} [Ord κ]

def mapValues (f : α → β) (t : Table κ α) : Table κ β :=
  ⟨t.entries.map fun e => (e.1, f e.2), List.pairwise_map.2 t.ascending⟩

variable {f : α → β} {t : Table κ α} {k : κ} {a : α}

theorem values_mapValues : (t.mapValues f).values = t.values.map f := by
  simp [values, mapValues, Function.comp_def]

theorem get?_mapValues : (t.mapValues f).get? k = (t.get? k).map f := by
  simp [get?, mapValues, List.find?_map, Function.comp_def]

theorem mapValues_erase : (t.erase k).mapValues f = (t.mapValues f).erase k := by
  simp [erase, filter, mapValues, List.filter_map, Function.comp_def]

theorem map_place (es : List (κ × α)) : (place k a es).map (fun e => (e.1, f e.2)) =
    place k (f a) (es.map fun e => (e.1, f e.2)) := by
  induction es with
  | nil => rfl
  | cons e rest ih =>
    simp only [place, List.map_cons]
    split <;> simp [ih]

theorem mapValues_insert [Std.TransOrd κ] :
    (t.insert k a).mapValues f = (t.mapValues f).insert k (f a) := by
  simp [insert, mapValues, map_place]

end Table

namespace Registration

variable (job : Int) (f : Registration → Decoder)

/-- Registrations of the job decode in another way. -/
def recode (g : Registration) : Registration :=
  if g.listener.job = job then { g with options := { g.options with decoder := f g } } else g

variable {job f} {g : Registration}

theorem recode_of_ne (h : g.listener.job ≠ job) : g.recode job f = g := if_neg h

@[simp]
theorem recode_id : (g.recode job f).id = g.id := by
  unfold recode
  split <;> rfl

@[simp]
theorem recode_listener : (g.recode job f).listener = g.listener := by
  unfold recode
  split <;> rfl

@[simp]
theorem recode_contract : (g.recode job f).options.contract = g.options.contract := by
  unfold recode
  split <;> rfl

@[simp]
theorem recode_filters : (g.recode job f).options.filters = g.options.filters := by
  unfold recode
  split <;> rfl

@[simp]
theorem recode_confirmations :
    (g.recode job f).options.confirmations = g.options.confirmations := by
  unfold recode
  split <;> rfl

end Registration

variable (job : Int) (f : Registration → Decoder)

def Registry.recode (r : Registry) : Registry :=
  { r with live := r.live.mapValues (·.recode job f) }

def Change.recode : Change → Change
  | .add g => .add (g.recode job f)
  | .remove id => .remove id

def Input.recode : Input → Input
  | .change c => .change (c.recode job f)
  | i => i

def Herald.recode (e : Herald) : Herald := { e with registry := e.registry.recode job f }

variable {job f}

theorem Registry.recode_add (r : Registry) (g : Registration) :
    (r.recode job f).add (g.recode job f) = ((r.add g).1, (r.add g).2.recode job f) := by
  simp [recode, add, Table.mapValues_insert, topicsOf]

theorem Registry.recode_remove (r : Registry) (id : Nat) :
    (r.recode job f).remove id = ((r.remove id).1, (r.remove id).2.recode job f) := by
  simp only [remove, recode, Table.get?_mapValues]
  cases r.live.get? id with
  | none => rfl
  | some g =>
    simp only [Option.map_some, Registration.recode_contract, Registration.recode_filters,
      Registration.recode_confirmations, Table.mapValues_erase]
    rfl

namespace Herald

variable {e : Herald}

theorem recode_apply (c : Change) :
    (e.recode job f).apply (c.recode job f) = (e.apply c).recode job f := by
  cases c with
  | add g => simp [apply, Change.recode, recode, Registry.recode_add]
  | remove id => simp [apply, Change.recode, recode, Registry.recode_remove]

theorem recode_spent (h : Head) : (e.recode job f).spent h = (e.spent h).recode job f := by
  unfold spent
  split
  next nobody => exact (if_pos nobody).symm ▸ rfl
  next somebody => exact (if_neg somebody).symm ▸ rfl

theorem recode_close (p : Pass) : (e.recode job f).close p = (e.close p).recode job f := by
  unfold close
  split <;> rfl

end Herald

end ChainHerald
