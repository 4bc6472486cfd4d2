import RustyPotato.Database

/-!
# What a command means

A command runs on the two maps, with everything that lazy expiry has left in them. It means a
function on the database that a client sees if its answer and what it leaves are those of the
function. The rules here take a command apart.
-/

namespace RustyPotato

open Cmd Parse

@[simp] theorem Database.put_self (db : Database) (key : String) : db.put key (db key) = db := by
  funext k
  simp only [put, ite_eq_right_iff]
  rintro rfl
  rfl

theorem MemoryStore.live_put (c : Clock) (s : MemoryStore) (key : String) (t : Slot) :
    (s.put key t).live c = Database.put (s.live c) key (t.live c) := by
  funext k
  simp only [live, Database.put, slot_put]
  split_ifs <;> rfl

/-! ## What a command means -/

namespace Cmd

variable {α β γ : Type} (c : Clock)

/-- On every store the command ends with this answer and shows this database afterwards. -/
def Means (m : Cmd α) (p : Database → Except String α × Database) : Prop :=
  ∀ s, ∃ s', m.run s = some ((p (s.live c)).1, s') ∧ s'.live c = (p (s.live c)).2

theorem Means.congr (m : Cmd α) (p q : Database → Except String α × Database) (h : Means c m p)
    (hpq : ∀ db, p db = q db) : Means c m q := by
  rwa [← funext hpq]

theorem means_pure (a : α) : Means c (pure a) fun db => (.ok a, db) := fun s => ⟨s, rfl, rfl⟩

/-- The two in turn, unless the first fails. -/
def andThen (p : Database → Except String α × Database)
    (q : α → Database → Except String β × Database) (db : Database) : Except String β × Database :=
  match p db with
  | (.ok a, db) => q a db
  | (.error e, db) => (.error e, db)

theorem means_bind (m : Cmd α) (f : α → Cmd β) (p : Database → Except String α × Database)
    (q : α → Database → Except String β × Database) (hm : Means c m p)
    (hf : ∀ a, Means c (f a) (q a)) : Means c (m >>= f) (andThen p q) := by
  intro s
  obtain ⟨s₁, hrun, hlive⟩ := hm s
  rw [run_bind, hrun]
  unfold andThen
  rcases hp : p (s.live c) with ⟨e | a, db⟩
  · exact ⟨s₁, rfl, by rw [hlive, hp]⟩
  · obtain ⟨s', hrun', hlive'⟩ := hf a s₁
    rw [hlive, hp] at hrun' hlive'
    exact ⟨s', hrun', hlive'⟩

theorem means_map (m : Cmd α) (f : α → β) (p : Database → Except String α × Database)
    (hm : Means c m p) :
    Means c (m >>= fun a => pure (f a)) fun db => ((p db).1.map f, (p db).2) := by
  refine (means_bind c m _ p _ hm fun a => means_pure c (f a)).congr c _ _ _ fun db => ?_
  unfold andThen
  rcases p db with ⟨_ | _, _⟩ <;> rfl

/-- A loop over items, each with its own meaning. -/
def forEach (p : γ → β → Database → Except String γ × Database) : List β → γ → Database →
    Except String γ × Database
  | [], acc => fun db => (.ok acc, db)
  | b :: rest, acc => andThen (p acc b) fun acc => forEach p rest acc

theorem means_foldlM (body : γ → β → Cmd γ) (p : γ → β → Database → Except String γ × Database)
    (items : List β) (h : ∀ acc, ∀ b ∈ items, Means c (body acc b) (p acc b)) (acc : γ) :
    Means c (items.foldlM body acc) (forEach p items acc) := by
  induction items generalizing acc with
  | nil => exact means_pure c acc
  | cons b rest ih =>
    rw [List.foldlM_cons]
    refine means_bind c _ _ _ _ (h acc b List.mem_cons_self) fun acc => ?_
    exact ih (fun acc b hb => h acc b (List.mem_cons_of_mem _ hb)) acc

theorem means_eachText (m : String → Cmd α) (g : γ → α → γ)
    (p : γ → String → Database → Except String γ × Database)
    (h : ∀ acc text, Means c (m text >>= fun r => pure (g acc r)) (p acc text))
    (texts : List String) (acc : γ) :
    Means c (eachText m g (texts.map utf8) acc) (forEach p texts acc) := by
  unfold eachText
  rw [List.foldlM_map]
  refine means_foldlM c _ p texts (fun acc text _ => ?_) acc
  rw [argText_ok _ text (fromUtf8_utf8 text), lift_ok_bind]
  exact h acc text

section
variable (key : String) (op : Op) (reply : Option Entry → Except String β)

/-- One operation on one key, and then the reply. -/
theorem means_atKey_bind (f : Slot → α × Slot) (hf : ∀ t, (f t).2 = op.run c t) (k : α → Cmd β)
    (hreply : ∀ t s, (k (f t).1).run s = some (reply (t.live c), s)) :
    Means c (atKey key f >>= k) fun db => (reply (db key), db.put key (op.apply c (db key))) := by
  intro s
  refine ⟨s.put key (f (s.slot key)).2, ?_, ?_⟩
  · rw [run_bind_ok _ _ s _ _ (run_atKey key f s), hreply]
    rfl
  · rw [MemoryStore.live_put, hf, Op.live_run]
    rfl

/-- A read purges, which nobody sees. -/
theorem means_read (f : Slot → α × Slot) (hf : ∀ t, (f t).2 = t.purge c) (k : α → Cmd β)
    (hreply : ∀ t s, (k (f t).1).run s = some (reply (t.live c), s)) :
    Means c (atKey key f >>= k) fun db => (reply (db key), db) := by
  refine (means_atKey_bind c key .purge reply f hf k hreply).congr c _ _ _ fun db => ?_
  rw [Op.apply, Database.put_self]

end

theorem means_atKey (key : String) (op : Op) (f : Slot → α × Slot) (result : Option Entry → α)
    (hf : ∀ t, (f t).2 = op.run c t) (hresult : ∀ t, (f t).1 = result (t.live c)) :
    Means c (Cmd.atKey key f)
      fun db => (.ok (result (db key)), db.put key (op.apply c (db key))) := by
  intro s
  refine ⟨s.put key (f (s.slot key)).2, ?_, ?_⟩
  · rw [run_atKey, hresult]
    rfl
  · rw [MemoryStore.live_put, hf, Op.live_run]
    rfl

/-- An operation that tells from the entry what comes of it. -/
theorem means_tryAtKey (key : String) (op : Op) (f : Slot → Except RustyPotatoError α × Slot)
    (result : Option Entry → Except String α) (hf : ∀ t, (f t).2 = op.run c t)
    (hresult : ∀ t, (f t).1.mapError RustyPotatoError.toClientError = result (t.live c)) :
    Means c (tryAtKey key f) fun db => (result (db key), db.put key (op.apply c (db key))) := by
  intro s
  refine ⟨s.put key (f (s.slot key)).2, ?_, ?_⟩
  · simp only [tryAtKey, MemoryStore.atKey, hresult]
    rfl
  · rw [MemoryStore.live_put, hf, Op.live_run]
    rfl

end Cmd

end RustyPotato
