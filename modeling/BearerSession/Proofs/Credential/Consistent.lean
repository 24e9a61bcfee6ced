import BearerSession.Proofs.Credential.Settled

/-!
# Consistent sessions

A session is consistent when its store is settled under the policy in force. As long as nothing is
refused, every operation keeps it so, also one that raises half way. Setting the policy leaves the
tokens behind for a while and then moves them.
-/

namespace BearerSession

namespace Session

variable {σ : Type} [Durable σ] [CountedDurable σ] {α : Type}

open LawfulDurable

/-- How often the storage of a session has refused an operation. -/
def refusals (s : Session σ) : Int := CountedDurable.refusals s.durable

/-- All cells agree with the durable storage under the policy in force. -/
def Consistent (s : Session σ) : Prop :=
  Settled (fun _ => s.store.policy) s.store (value? s.durable)

/-- What is shown of work on a cell holds of the session. -/
theorem undisturbed_onCell {n : CellName} {f : Cell → Policy → Act σ (Cell × α)}
    {P E : Session σ → Prop} {Q : α → Session σ → Prop}
    (h : ∀ store : Store, Undisturbed CountedDurable.refusals (fun d => P ⟨store, d⟩)
      (f (store.cell n) store.policy) (fun r d => Q r.2 ⟨store.put n r.1, d⟩)
      fun d => E ⟨store, d⟩) :
    Undisturbed refusals P (onCell n f) Q E := by
  intro s
  obtain ⟨hle, hpost⟩ := h s.store s.durable
  cases hf : f (s.store.cell n) s.store.policy s.durable with
  | ok r d =>
    have hon : onCell n f s = .ok r.2 ⟨s.store.put n r.1, d⟩ := by simp only [onCell, hf]
    simp only [Act.after, hf] at hle hpost
    simp only [Act.after, hon]
    exact ⟨hle, hpost⟩
  | error e d =>
    have hon : onCell n f s = .error e ⟨s.store, d⟩ := by simp only [onCell, hf]
    simp only [Act.after, hf] at hle hpost
    simp only [Act.after, hon]
    exact ⟨hle, hpost⟩

theorem undisturbed_change {n : CellName} {f : Cell → Policy → Act σ Cell}
    {P Q E : Session σ → Prop}
    (h : ∀ store : Store, Undisturbed CountedDurable.refusals (fun d => P ⟨store, d⟩)
      (f (store.cell n) store.policy) (fun c d => Q ⟨store.put n c, d⟩) fun d => E ⟨store, d⟩) :
    Undisturbed refusals P (change n f) (fun _ => Q) E := by
  refine undisturbed_onCell fun store => .bind (h store) fun c => ?_
  exact .pure (Q := fun (r : Cell × Unit) d => Q ⟨store.put n r.1, d⟩) (c, ())

/-- Only the cell of the policy decides on the policy in force. -/
theorem policy_put_of_ne (store : Store) {n : CellName} (hn : n ≠ .policy) (c : Cell) :
    (store.put n c).policy = store.policy := by
  simp only [Store.policy, Store.cell_put_of_ne _ _ hn.symm, Store.defaultPolicy_put]

/-- Emptying a cell keeps a session consistent. -/
theorem undisturbed_clear {n : CellName} (hn : n ≠ .policy) {E : Session σ → Prop} :
    Undisturbed refusals Consistent (clear n) (fun _ => Consistent) E := by
  refine undisturbed_change fun store => ?_
  refine .given (Cell.undisturbed_clear (store.cell n) (Q := fun c view =>
    Settled (fun _ => (store.put n c).policy) (store.put n c) view)) fun d hd => ?_
  rw [policy_put_of_ne store hn]
  exact hd.put_emptied n

/-- So does giving a cell a value, even one that cannot be encoded. -/
theorem undisturbed_set (n : CellName) (v : Value) :
    Undisturbed refusals (fun s => n ≠ .policy ∧ s.Consistent) (set n v : Act (Session σ) Unit)
      (fun _ => Consistent) Consistent := by
  refine undisturbed_change fun store => ?_
  unfold Cell.set
  split
  · refine .given (Cell.undisturbed_clear (store.cell n) (Q := fun c view =>
      Settled (fun _ => (store.put n c).policy) (store.put n c) view)) fun d hd => ?_
    rw [policy_put_of_ne store hd.1]
    exact hd.2.put_emptied n
  · split
    · next raw _ =>
      refine .given (Cell.undisturbed_write (store.cell n) store.policy raw (Q := fun c view =>
        Settled (fun _ => (store.put n c).policy) (store.put n c) view)) fun d hd => ?_
      rw [policy_put_of_ne store hd.1]
      exact hd.2.put_written n raw
    · exact .given (.throw _) fun d hd => hd.2

/-- Whether a list of cells with values leaves the policy alone. -/
def SparesPolicy (values : List (CellName × Value)) : Prop := ∀ e ∈ values, e.1 ≠ .policy

/-- The first of several values is set on its own, and the others leave the policy alone too. -/
theorem undisturbed_set_head (n : CellName) (v : Value) (rest : List (CellName × Value)) :
    Undisturbed refusals (fun s => SparesPolicy ((n, v) :: rest) ∧ s.Consistent)
      (set n v : Act (Session σ) Unit) (fun _ s => SparesPolicy rest ∧ s.Consistent)
      fun s => SparesPolicy rest ∧ s.Consistent := by
  refine .given (undisturbed_set n v).carry fun s hs => ?_
  obtain ⟨hn, hrest⟩ := List.forall_mem_cons.mp hs.1
  exact ⟨hrest, hn, hs.2⟩

theorem undisturbed_setAll (values : List (CellName × Value)) :
    Undisturbed refusals (fun s => SparesPolicy values ∧ s.Consistent)
      (setAll values : Act (Session σ) Unit) (fun _ => Consistent) Consistent := by
  induction values with
  | nil => exact .given (.pure (Q := fun _ => Consistent) ()) fun s hs => hs.2
  | cons e rest ih =>
    obtain ⟨n, v⟩ := e
    exact .bind (.weaken (undisturbed_set_head n v rest) (fun s hs => hs) (fun _ s hs => hs)
      fun s hs => hs.2) fun _ => ih

/-- What cannot be given back leaves a session consistent all the same. -/
theorem undisturbed_putBack (values : List (CellName × Value)) {E : Session σ → Prop} :
    Undisturbed refusals (fun s => SparesPolicy values ∧ s.Consistent)
      (putBack values : Act (Session σ) Unit) (fun _ => Consistent) E := by
  induction values with
  | nil => exact .given (.pure (Q := fun _ => Consistent) ()) fun s hs => hs.2
  | cons e rest ih =>
    obtain ⟨n, v⟩ := e
    refine .bind (.tryCatch (undisturbed_set_head n v rest) fun _ => ?_) fun _ => ih
    exact .pure (Q := fun _ s => SparesPolicy rest ∧ Consistent s) ()

/-- Reading a cell changes nothing, whether its text can be read or not. -/
theorem undisturbed_get (n : CellName) {P : Session σ → Prop} :
    Undisturbed refusals P (get n : Act (Session σ) Value) (fun _ => P) P := by
  intro s
  unfold Act.after get
  cases (s.store.cell n).get <;> exact ⟨Int.le_refl _, fun _ hs => hs⟩

/-- The present values of cells are those of the cells asked for. -/
theorem undisturbed_valuesOf (names : List CellName) {P : Session σ → Prop} :
    Undisturbed refusals P (valuesOf names : Act (Session σ) (List (CellName × Value)))
      (fun values s => values.map Prod.fst = names ∧ P s) P := by
  induction names with
  | nil => exact .given (.pure []) fun s hs => ⟨rfl, hs⟩
  | cons n rest ih =>
    refine .bind (undisturbed_get n) fun v => .bind ih fun values => ?_
    refine .given (.pure ((n, v) :: values)) fun s hs => ⟨?_, hs.2⟩
    rw [List.map_cons, hs.1]

/-- A grant brings its tokens, its user, and its client id if that is not empty. -/
theorem mem_grantValues_iff {g : Grant} {e : CellName × Value} :
    e ∈ grantValues g ↔ e = (.accessToken, .text g.accessToken) ∨ e = (.idToken, .text g.idToken) ∨
      e = (.user, g.user.toValue) ∨
        ∃ id, g.clientId.bind Text.nonempty? = some id ∧ e = (.clientId, .text id) := by
  unfold grantValues
  cases g.clientId.bind Text.nonempty? <;> simp

theorem sparesPolicy_grantValues (g : Grant) : SparesPolicy (grantValues g) := by
  intro e he
  obtain rfl | rfl | rfl | ⟨id, -, rfl⟩ := mem_grantValues_iff.mp he <;> exact nofun

/-- Writing a grant keeps a session consistent, also when a write fails and the cells are given back
what they had. -/
theorem undisturbed_writeAuthorization (g : Grant) :
    Undisturbed refusals Consistent (writeAuthorization g : Act (Session σ) Unit)
      (fun _ => Consistent) Consistent := by
  have hspares := sparesPolicy_grantValues g
  unfold writeAuthorization
  refine .bind (undisturbed_valuesOf _) fun previous => ?_
  have hset : Undisturbed refusals
      (fun s => previous.map Prod.fst = (grantValues g).map Prod.fst ∧ s.Consistent)
      (setAll (grantValues g) : Act (Session σ) Unit) (fun _ => Consistent)
      fun s => previous.map Prod.fst = (grantValues g).map Prod.fst ∧ s.Consistent :=
    .weaken (undisturbed_setAll _).carry (fun s hs => ⟨hs.1, hspares, hs.2⟩)
      (fun _ s hs => hs.2) fun s hs => hs
  refine .tryCatch hset fun e => ?_
  refine .bind (.given (undisturbed_putBack previous) fun s hs => ⟨?_, hs.2⟩) fun _ => .throw e
  intro entry hentry
  have hname : entry.1 ∈ (grantValues g).map Prod.fst := hs.1 ▸ List.mem_map_of_mem hentry
  obtain ⟨written, hwritten, he⟩ := List.mem_map.mp hname
  exact he ▸ hspares written hwritten

/-- Forgetting the tokens and the user keeps a session consistent. -/
theorem undisturbed_clearAuthorization :
    Undisturbed refusals Consistent (clearAuthorization : Act (Session σ) Unit)
      (fun _ => Consistent) Consistent := by
  unfold clearAuthorization
  refine .bind (undisturbed_clear (n := .accessToken) nofun) fun _ => ?_
  refine .bind (undisturbed_clear (n := .idToken) nofun) fun _ => ?_
  exact undisturbed_clear (n := .user) nofun

/-- Moving a cell makes it agree under the policy in force. -/
theorem undisturbed_migrate {n : CellName} (hn : n ≠ .policy) (under : CellName → Policy)
    (p : Policy) {E : Session σ → Prop} :
    Undisturbed refusals
      (fun s => s.store.policy = p ∧ Settled under s.store (value? s.durable))
      (migrate n : Act (Session σ) Bool)
      (fun _ s => s.store.policy = p ∧
        Settled (Function.update under n p) s.store (value? s.durable)) E := by
  refine undisturbed_onCell fun store => ?_
  refine .given (Cell.undisturbed_migrate (store.cell n) store.policy (under n)
    (Q := fun c view => (store.put n c).policy = p ∧
      Settled (Function.update under n p) (store.put n c) view)) fun d hd => ?_
  obtain ⟨rfl, hsettled⟩ := hd
  refine ⟨(hsettled.isAt n).1 ▸ hsettled.agrees n, ?_⟩
  split
  · next hraw => exact ⟨policy_put_of_ne store hn _, hsettled.put_self hraw _⟩
  · next raw _ => exact ⟨policy_put_of_ne store hn _, hsettled.put_filled n _ raw⟩

/-- Writing the policy leaves the cells that it governs behind. -/
theorem undisturbed_set_policy (p : Policy) {E : Session σ → Prop} :
    Undisturbed refusals Consistent (set .policy (.text p.name) : Act (Session σ) Unit)
      (fun _ s => s.store.policy = p ∧ ∃ q,
        Settled (fun n => if n.governed = true then q else p) s.store (value? s.durable)) E := by
  refine undisturbed_change fun store => ?_
  have hplain : ∀ d : σ, Consistent ⟨store, d⟩ → (store.cell .policy).kind = .plain :=
    fun d hd => (hd.isAt .policy).2.1
  simp only [Cell.set, Cell.encode]
  cases hkind : (store.cell .policy).kind with
  | identity =>
    refine .given (.throw _) fun d hd => ?_
    rw [hplain d hd] at hkind
    contradiction
  | plain =>
    refine .given (Cell.undisturbed_write (store.cell .policy) store.policy p.name
      (Q := fun c view => (store.put .policy c).policy = p ∧ ∃ q,
        Settled (fun n => if n.governed = true then q else p) (store.put .policy c) view))
      fun d hd => ⟨by simp [Store.policy, Cell.filled], store.policy, ?_⟩
    refine (hd.put_written .policy p.name).retarget fun n hn => ?_
    rw [if_pos hn]

/-- Setting the policy keeps a session consistent. -/
theorem undisturbed_setPolicy (p : Policy) :
    Undisturbed refusals Consistent (setPolicy p : Act (Session σ) Bool)
      (fun _ => Consistent) Consistent := by
  unfold setPolicy
  refine .bind (Q := fun a s => a = s ∧ s.Consistent) (.given .get fun s hs => ⟨rfl, hs⟩)
    fun s₀ => ?_
  by_cases hp : s₀.store.policy = p
  · simp only [hp, if_true]
    exact .given (.pure (Q := fun _ => Consistent) false) fun s hs => hs.2
  · simp only [hp, if_false]
    refine .bind (.given (undisturbed_set_policy p) fun s hs => hs.2) fun _ => ?_
    have hall : ∀ q, Function.update (Function.update
        (fun n : CellName => if n.governed = true then q else p) .accessToken p) .idToken p =
        fun _ => p := by
      intro q
      funext n
      cases n <;> rfl
    have htokens : Undisturbed refusals
        (fun s : Session σ => ∃ q, s.store.policy = p ∧
          Settled (fun n => if n.governed = true then q else p) s.store (value? s.durable))
        (CellName.tokens.forM fun n => discard (migrate n : Act (Session σ) Bool))
        (fun _ => Consistent) Consistent := by
      have : Nonempty Policy := ⟨.always⟩
      refine .of_exists fun q => ?_
      refine .bind (.discard (undisturbed_migrate (n := .accessToken) nofun _ p)) fun _ => ?_
      refine .bind (.discard (undisturbed_migrate (n := .idToken) nofun _ p)) fun _ => ?_
      refine .given (.pure (Q := fun _ => Consistent) ()) fun s hs => ?_
      obtain ⟨hpolicy, hsettled⟩ := hs
      rw [hall q, ← hpolicy] at hsettled
      exact hsettled
    refine .bind (.given htokens fun s hs => ?_) fun _ => .pure (Q := fun _ => Consistent) true
    obtain ⟨hpolicy, q, hsettled⟩ := hs
    exact ⟨q, hpolicy, hsettled⟩

end Session

end BearerSession
