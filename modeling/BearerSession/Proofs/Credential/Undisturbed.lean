import Mathlib.Logic.Function.Basic
import BearerSession.Durable.Memory

/-!
# Undisturbed computations

What a computation does to cells and storage is said as long as the storage refuses nothing. A
backend that counts its refusals tells whether that was so: the count never goes down, and it stays
the same exactly where nothing was refused.
-/

namespace BearerSession

/-- A lawful backend that counts its refusals, from any number on. -/
class CountedDurable (σ : Type) [Durable σ] extends LawfulDurable σ where
  /-- How often an operation has been refused. -/
  refusals : σ → Int
  /-- A write that succeeds is no refusal. -/
  refusals_set_ok : ∀ (s t : σ) (key value : String), Durable.set key value s = .ok () t →
    refusals t = refusals s
  /-- A write that does not succeed is one. -/
  refusals_set_error : ∀ (s t : σ) (key value : String) (e : Raised),
    Durable.set key value s = .error e t → refusals s < refusals t
  /-- A removal that succeeds is no refusal. -/
  refusals_remove_ok : ∀ (s t : σ) (key : String), Durable.remove key s = .ok () t →
    refusals t = refusals s
  /-- A removal that does not succeed is one. -/
  refusals_remove_error : ∀ (s t : σ) (key : String) (e : Raised),
    Durable.remove key s = .error e t → refusals s < refusals t

namespace Memory

/-- How often operations may still be refused. -/
def allowance (refusals : List PlannedRefusal) : Int := refusals.foldr (fun r n => r.times + n) 0

/-- Each refusal is taken off the plan. -/
theorem allowance_refuse? {kind : WriteKind} {key : String} {plan left : List PlannedRefusal}
    (h : refuse? kind key plan = some left) : allowance left + 1 = allowance plan := by
  induction plan generalizing left with
  | nil => contradiction
  | cons r rest ih =>
    unfold refuse? at h
    split at h
    · cases h
      simp only [allowance, List.foldr_cons]
      omega
    · obtain ⟨more, hmore, rfl⟩ := Option.map_eq_some_iff.mp h
      have hrest := ih hmore
      simp only [allowance, List.foldr_cons] at hrest ⊢
      omega

variable {kind : WriteKind} {key : String}
  {change : List (String × String) → List (String × String)} {m m' : Memory}

/-- An operation that succeeds leaves the plan as it is. -/
theorem neg_allowance_of_ok (h : attempt kind key change m = .ok () m') :
    -allowance m'.refusals = -allowance m.refusals := by
  unfold attempt at h
  split at h
  · contradiction
  · cases h
    rfl

/-- One that is refused leaves less of it. -/
theorem neg_allowance_of_error {e : Raised} (h : attempt kind key change m = .error e m') :
    -allowance m.refusals < -allowance m'.refusals := by
  unfold attempt at h
  split at h
  · next left hleft =>
    cases h
    have hone := allowance_refuse? hleft
    change -allowance m.refusals < -allowance left
    omega
  · contradiction

instance : CountedDurable Memory where
  refusals m := -allowance m.refusals
  refusals_set_ok _ _ _ _ h := neg_allowance_of_ok h
  refusals_set_error _ _ _ _ _ h := neg_allowance_of_error h
  refusals_remove_ok _ _ _ h := neg_allowance_of_ok h
  refusals_remove_error _ _ _ _ h := neg_allowance_of_error h

end Memory

/-- A backend with the number of its refusals beside it. -/
structure Tallied (σ : Type) where
  /-- The backend. -/
  backend : σ
  /-- How often it has refused something. -/
  refusals : Int

namespace Tallied

variable {σ : Type}

/-- Run a computation on the backend; one that raises has been refused. -/
def tally (f : Act σ Unit) : Act (Tallied σ) Unit := fun t =>
  match f t.backend with
  | .ok () b => .ok () { t with backend := b }
  | .error e b => .error e ⟨b, t.refusals + 1⟩

theorem tally_ok {f : Act σ Unit} {s t : Tallied σ} (h : tally f s = .ok () t) :
    f s.backend = .ok () t.backend ∧ t.refusals = s.refusals := by
  unfold tally at h
  split at h
  · next hf =>
    cases h
    exact ⟨hf, rfl⟩
  · contradiction

theorem tally_error {f : Act σ Unit} {s t : Tallied σ} {e : Raised}
    (h : tally f s = .error e t) :
    f s.backend = .error e t.backend ∧ s.refusals < t.refusals := by
  unfold tally at h
  split at h
  · contradiction
  · next hf =>
    cases h
    exact ⟨hf, Int.lt_succ s.refusals⟩

variable [Durable σ]

instance : Durable (Tallied σ) where
  get key t := Durable.get key t.backend
  set key value := tally (Durable.set key value)
  remove key := tally (Durable.remove key)

/-- Any lawful backend counts its refusals that way. -/
instance [LawfulDurable σ] : CountedDurable (Tallied σ) where
  value? t key := LawfulDurable.value? t.backend key
  get_eq t key := LawfulDurable.get_eq t.backend key
  set_ok _ _ key value h := LawfulDurable.set_ok _ _ key value (tally_ok h).1
  set_error _ _ key value e h := LawfulDurable.set_error _ _ key value e (tally_error h).1
  remove_ok _ _ key h := LawfulDurable.remove_ok _ _ key (tally_ok h).1
  remove_error _ _ key e h := LawfulDurable.remove_error _ _ key e (tally_error h).1
  refusals := refusals
  refusals_set_ok _ _ _ _ h := (tally_ok h).2
  refusals_set_error _ _ _ _ _ h := (tally_error h).2
  refusals_remove_ok _ _ _ h := (tally_ok h).2
  refusals_remove_error _ _ _ _ h := (tally_error h).2

end Tallied

/-- A computation counts the refusals it meets, and where it meets none it leads from `P` to `Q`, or
to `E` when it raises. -/
def Undisturbed {τ α : Type} (count : τ → Int) (P : τ → Prop) (f : Act τ α)
    (Q : α → τ → Prop) (E : τ → Prop) : Prop :=
  ∀ s, count s ≤ count (f.after s) ∧ (count (f.after s) = count s → P s →
    match f s with
    | .ok a t => Q a t
    | .error _ t => E t)

namespace Undisturbed

variable {τ α β : Type} {count : τ → Int} {P P' : τ → Prop} {Q Q' : α → τ → Prop}
  {R : β → τ → Prop} {E E' : τ → Prop} {f : Act τ α}

/-- Less may be asked for after more was given. -/
theorem weaken (h : Undisturbed count P f Q E) (hP : ∀ s, P' s → P s)
    (hQ : ∀ a s, Q a s → Q' a s) (hE : ∀ s, E s → E' s) : Undisturbed count P' f Q' E' := by
  intro s
  refine ⟨(h s).1, fun hcount hs => ?_⟩
  have hpost := (h s).2 hcount (hP s hs)
  cases hf : f s with
  | ok a t =>
    rw [hf] at hpost
    exact hQ a t hpost
  | error e t =>
    rw [hf] at hpost
    exact hE t hpost

theorem given (h : Undisturbed count P f Q E) (hP : ∀ s, P' s → P s) :
    Undisturbed count P' f Q E :=
  h.weaken hP (fun _ _ hq => hq) fun _ he => he

/-- A fact that has nothing to do with the state stays. -/
theorem carry {A : Prop} (h : Undisturbed count P f Q E) :
    Undisturbed count (fun s => A ∧ P s) f (fun a s => A ∧ Q a s) fun s => A ∧ E s := by
  intro s
  refine ⟨(h s).1, fun hcount hs => ?_⟩
  have hpost := (h s).2 hcount hs.2
  cases hf : f s with
  | ok a t =>
    rw [hf] at hpost
    exact ⟨hs.1, hpost⟩
  | error e t =>
    rw [hf] at hpost
    exact ⟨hs.1, hpost⟩

/-- What holds from each of several conditions on holds from one of them on. -/
theorem of_exists {ι : Type} [Nonempty ι] {P : ι → τ → Prop}
    (h : ∀ i, Undisturbed count (P i) f Q E) : Undisturbed count (fun s => ∃ i, P i s) f Q E := by
  intro s
  obtain ⟨i₀⟩ := ‹Nonempty ι›
  refine ⟨(h i₀ s).1, fun hcount hs => ?_⟩
  obtain ⟨i, hi⟩ := hs
  exact (h i s).2 hcount hi

theorem pure (a : α) : Undisturbed count (Q a) (Pure.pure a : Act τ α) Q E := by
  intro s
  exact ⟨Int.le_refl _, fun _ hs => hs⟩

theorem throw (e : Raised) : Undisturbed count E (MonadExcept.throw e : Act τ α) Q E := by
  intro s
  exact ⟨Int.le_refl _, fun _ hs => hs⟩

theorem bind {g : α → Act τ β} (hf : Undisturbed count P f Q E)
    (hg : ∀ a, Undisturbed count (Q a) (g a) R E) : Undisturbed count P (f >>= g) R E := by
  intro s
  obtain ⟨hle, hpost⟩ := hf s
  cases hs : f s with
  | ok a t =>
    have hbind : (f >>= g) s = g a t := by simp only [Bind.bind, EStateM.bind, hs]
    obtain ⟨hle', hpost'⟩ := hg a t
    simp only [Act.after, hs] at hle hpost
    simp only [Act.after, hbind] at hle' hpost' ⊢
    refine ⟨Int.le_trans hle hle', fun hcount hP => hpost' (by omega) (hpost (by omega) hP)⟩
  | error e t =>
    have hbind : (f >>= g) s = .error e t := by simp only [Bind.bind, EStateM.bind, hs]
    simp only [Act.after, hs] at hle hpost
    simp only [Act.after, hbind]
    exact ⟨hle, hpost⟩

theorem discard {P' : τ → Prop} (h : Undisturbed count P f (fun _ => P') E) :
    Undisturbed count P (Functor.discard f) (fun _ => P') E := by
  intro s
  obtain ⟨hle, hpost⟩ := h s
  cases hs : f s with
  | ok a t =>
    have hdiscard : (Functor.discard f : Act τ Unit) s = .ok () t := by
      change EStateM.map _ f s = _
      simp only [EStateM.map, hs, Function.const_apply]
    simp only [Act.after, hs] at hle hpost
    simp only [Act.after, hdiscard]
    exact ⟨hle, hpost⟩
  | error e t =>
    have hdiscard : (Functor.discard f : Act τ Unit) s = .error e t := by
      change EStateM.map _ f s = _
      simp only [EStateM.map, hs]
    simp only [Act.after, hs] at hle hpost
    simp only [Act.after, hdiscard]
    exact ⟨hle, hpost⟩

/-- What was done before an error is caught stays. -/
theorem tryCatch {g : Raised → Act τ α} (hf : Undisturbed count P f Q E')
    (hg : ∀ e, Undisturbed count E' (g e) Q E) :
    Undisturbed count P (MonadExcept.tryCatch f g) Q E := by
  intro s
  obtain ⟨hle, hpost⟩ := hf s
  cases hs : f s with
  | ok a t =>
    have htry : (MonadExcept.tryCatch f g : Act τ α) s = .ok a t := by
      change EStateM.tryCatch f g s = _
      delta EStateM.tryCatch
      simp only [hs]
    simp only [Act.after, hs] at hle hpost
    simp only [Act.after, htry]
    exact ⟨hle, hpost⟩
  | error e t =>
    have htry : (MonadExcept.tryCatch f g : Act τ α) s = g e t := by
      change EStateM.tryCatch f g s = _
      delta EStateM.tryCatch
      simp only [hs]
      rfl
    obtain ⟨hle', hpost'⟩ := hg e t
    simp only [Act.after, hs] at hle hpost
    simp only [Act.after, htry] at hle' hpost' ⊢
    refine ⟨Int.le_trans hle hle', fun hcount hP => hpost' (by omega) (hpost (by omega) hP)⟩

theorem get {Q : τ → τ → Prop} :
    Undisturbed count (fun s => Q s s) (MonadState.get : Act τ τ) Q E := by
  intro s
  exact ⟨Int.le_refl _, fun _ hs => hs⟩

variable {σ : Type} [Durable σ] [CountedDurable σ]

open CountedDurable LawfulDurable

/-- A write shows at its key. -/
theorem set (key value : String) {Q : (String → Option String) → Prop} {E : σ → Prop} :
    Undisturbed refusals (fun d => Q (Function.update (value? d) key (some value)))
      (Durable.set key value) (fun _ d => Q (value? d)) E := by
  intro s
  cases h : Durable.set key value s with
  | ok u t =>
    have hview : value? t = Function.update (value? s) key (some value) := by
      funext other
      rw [set_ok s t key value h other, Function.update_apply]
      simp only [eq_comm]
    simp only [Act.after, h, refusals_set_ok s t key value h, hview]
    exact ⟨Int.le_refl _, fun _ hs => hs⟩
  | error e t =>
    have hlt := refusals_set_error s t key value e h
    simp only [Act.after, h]
    exact ⟨by omega, fun hcount => by omega⟩

/-- A removal shows at its key. -/
theorem remove (key : String) {Q : (String → Option String) → Prop} {E : σ → Prop} :
    Undisturbed refusals (fun d => Q (Function.update (value? d) key none))
      (Durable.remove key) (fun _ d => Q (value? d)) E := by
  intro s
  cases h : Durable.remove key s with
  | ok u t =>
    have hview : value? t = Function.update (value? s) key none := by
      funext other
      rw [remove_ok s t key h other, Function.update_apply]
      simp only [eq_comm]
    simp only [Act.after, h, refusals_remove_ok s t key h, hview]
    exact ⟨Int.le_refl _, fun _ hs => hs⟩
  | error e t =>
    have hlt := refusals_remove_error s t key e h
    simp only [Act.after, h]
    exact ⟨by omega, fun hcount => by omega⟩

/-- Reading answers the view and changes nothing. -/
theorem read (key : String) {Q : Option String → (String → Option String) → Prop} {E : σ → Prop} :
    Undisturbed refusals (fun d => Q (value? d key) (value? d))
      (Durable.read key) (fun a d => Q a (value? d)) E := by
  intro s
  simp only [Act.after, Durable.read, get_eq]
  exact ⟨Int.le_refl _, fun _ hs => hs⟩

end Undisturbed

end BearerSession
