import Mathlib.Data.List.Sort
import Mathlib.Data.String.Basic
import BearerSession.Proofs.Value.Entries
import BearerSession.Realm.Registry

/-!
# The binding of a realm after any calls

Registering binds a realm, unregistering unbinds it, and discovery binds the realm of each entry
point that it loads. Each call is thus a list of rebindings, and after any calls a realm has the
handler that it was bound to last, unless it was unbound since.
-/

namespace BearerSession

variable {L : Type}

/-- A call on a registry. -/
inductive RegistryCall (L : Type) where
  /-- Bind a realm to a listener. -/
  | register (realm : Option String) (listener : Option L)
  /-- Unbind a realm. -/
  | unregister (realm : Option String)
  /-- Bind the realms of entry points; an absent list says as much as an empty one. -/
  | discover (entryPoints : List (EntryPoint L)) (enabled disabled : Option (List String))

/-- What can happen to the binding of a realm. -/
inductive Rebinding (L : Type) where
  /-- The realm of a handler is bound to it. -/
  | bound (h : Handler L)
  /-- A realm has no handler any more. -/
  | unbound (realm : String)

/-- The realm that is rebound. -/
def Rebinding.realm : Rebinding L → String
  | .bound h => h.realm
  | .unbound realm => realm

/-- The handler that a realm has after a rebinding, given the one it had. -/
def Rebinding.leaves (name : String) (held : Option (Handler L)) : Rebinding L → Option (Handler L)
  | .bound h => if h.realm = name then some h else held
  | .unbound realm => if realm = name then none else held

/-- The handler of a realm and a listener, when both are there and the realm has a name. -/
def Handler.of? : Option String → Option L → Option (Handler L)
  | some name, some l => if h : name = "" then none else some ⟨name, l, h⟩
  | _, _ => none

/-- The handler of a realm names it. -/
theorem Handler.realm_of? {name : String} {listener : Option L} {h : Handler L}
    (hof : Handler.of? (some name) listener = some h) : h.realm = name := by
  cases listener with
  | none => contradiction
  | some l =>
    rw [Handler.of?] at hof
    split at hof
    · contradiction
    · exact Option.some.inj hof ▸ rfl

/-- The handler that an entry point gives. -/
def EntryPoint.handler? (e : EntryPoint L) : Option (Handler L) :=
  Handler.of? (some e.name) e.listener?

/-- Whether an entry point is loaded: it is enabled, as all are where none is named, it is not
disabled, it has a name, and it yields a listener. -/
def EntryPoint.IsLoaded (enabled disabled : Option (List String)) (e : EntryPoint L) : Prop :=
  (enabled.getD [] = [] ∨ e.name ∈ enabled.getD []) ∧ e.name ∉ disabled.getD [] ∧ e.name ≠ "" ∧
    e.listener?.isSome

instance (enabled disabled : Option (List String)) (e : EntryPoint L) :
    Decidable (e.IsLoaded enabled disabled) :=
  inferInstanceAs (Decidable (_ ∧ _))

/-- What a call does to the bindings, in order. -/
def RegistryCall.rebindings : RegistryCall L → List (Rebinding L)
  | .register realm listener => ((Handler.of? realm listener).map .bound).toList
  | .unregister realm => (realm.map .unbound).toList
  | .discover entryPoints enabled disabled =>
    ((entryPoints.filter (·.IsLoaded enabled disabled)).filterMap EntryPoint.handler?).map .bound

namespace Registry

variable {r : Registry L} {name : String} {h : Handler L}

/-- The registry that a call leaves; one that raises leaves what it found. -/
def after (r : Registry L) : RegistryCall L → Registry L
  | .register realm listener =>
    match r.register (.ofText? realm) listener with
    | .ok (_, next) => next
    | .error _ => r
  | .unregister realm =>
    match r.unregister (.ofText? realm) with
    | .ok next => next
    | .error _ => r
  | .discover entryPoints enabled disabled =>
    (r.discover entryPoints (enabled.getD []) (disabled.getD [])).2

/-- A registry is orderly when each realm stands in it once, above a handler of its own. -/
structure Orderly (r : Registry L) : Prop where
  /-- Each realm stands once. -/
  keyed : Value.Keyed r.handlers
  /-- What is found under a realm is a handler of that realm. -/
  named : ∀ {name h}, r.handler? name = some h → h.realm = name

/-- A registry without handlers is orderly. -/
theorem orderly_empty : (empty : Registry L).Orderly where
  keyed := List.nodup_nil
  named := by simp [handler?, empty, Value.find?]

/-- An orderly registry has nothing under the empty name. -/
theorem Orderly.handler?_empty_name (hr : r.Orderly) : r.handler? "" = none := by
  cases hfound : r.handler? "" with
  | none => rfl
  | some h => exact absurd (hr.named hfound) h.realm_ne

/-- Binding a realm keeps a registry orderly. -/
theorem Orderly.bind (hr : r.Orderly) (h : Handler L) : (r.bind h).Orderly where
  keyed := hr.keyed.insertEntry h.realm h
  named := by
    intro name held hfound
    rw [handler?_bind] at hfound
    split at hfound
    · next hname => exact Option.some.inj hfound ▸ hname
    · exact hr.named hfound

/-- Erasing a realm keeps a registry orderly. -/
theorem Orderly.erase (hr : r.Orderly) (name : String) :
    Orderly ⟨Value.eraseEntry name r.handlers⟩ where
  keyed := hr.keyed.eraseEntry name
  named := by
    intro other held hfound
    rw [handler?, Value.find?_eraseEntry] at hfound
    split at hfound
    · contradiction
    · exact hr.named hfound

/-- In an orderly registry looking up a realm finds its handler. -/
theorem Orderly.lookup_text (hr : r.Orderly) (name : String) :
    r.lookup (.text name) = .ok (r.handler? name) := by
  by_cases hname : name = ""
  · rw [hname, hr.handler?_empty_name]
    rfl
  · simp [lookup, Value.isGiven, Value.isKey, hname]

/-- A realm that is given by name and listener is registered, and nothing else is. -/
theorem register_eq (r : Registry L) (realm : Option String) (listener : Option L) :
    r.register (.ofText? realm) listener =
      match Handler.of? realm listener with
      | some h => .ok (h, r.bind h)
      | none => .error (if realm.getD "" = "" then .emptyRealm else .nullRealmListener) := by
  cases realm with
  | none => rfl
  | some name =>
    by_cases hname : name = ""
    · cases listener <;> simp [register, realmName?, Value.ofText?, Handler.of?, hname]
    · cases listener <;> simp [register, realmName?, Value.ofText?, Handler.of?, hname]

/-- Unregistering a realm leaves an orderly registry in which that realm alone has lost its
handler. -/
theorem Orderly.unregister_text (hr : r.Orderly) (name : String) :
    ∃ next : Registry L, r.unregister (.text name) = .ok next ∧ next.Orderly ∧
      ∀ other, next.handler? other = if name = other then none else r.handler? other := by
  have hkey : (Value.text name).isKey = true := rfl
  rw [unregister]
  split
  · next hskip =>
    refine ⟨r, rfl, hr, fun other => ?_⟩
    split
    · next hother =>
      subst hother
      rcases Bool.or_eq_true_iff.mp hskip with hgiven | hnone
      · have hname : name = "" := by simpa [Value.isGiven] using hgiven
        rw [hname, hr.handler?_empty_name]
      · rw [handler?, List.isEmpty_iff.mp hnone]
        rfl
    · rfl
  · rw [hkey]
    refine ⟨_, rfl, hr.erase name, fun other => ?_⟩
    rw [handler?, Value.find?_eraseEntry, handler?]

/-- An entry point gives a handler just when it has a name and yields a listener. -/
theorem isSome_handler?_iff (e : EntryPoint L) :
    e.handler?.isSome ↔ e.name ≠ "" ∧ e.listener?.isSome := by
  cases hlistener : e.listener? with
  | none => simp [EntryPoint.handler?, Handler.of?, hlistener]
  | some l =>
    by_cases hname : e.name = "" <;>
      simp [EntryPoint.handler?, Handler.of?, hlistener, hname]

/-- Loading an entry point notes its name and binds its handler, when it is to be loaded. -/
theorem load_eq (enabled disabled : Option (List String)) (names : List String) (r : Registry L)
    (e : EntryPoint L) :
    load (enabled.getD []) (disabled.getD []) (names, r) e =
      if e.IsLoaded enabled disabled then (names ++ [e.name], e.handler?.toList.foldl bind r)
      else (names, r) := by
  have hwanted : isWanted (enabled.getD []) (disabled.getD []) e.name = true ↔
      (enabled.getD [] = [] ∨ e.name ∈ enabled.getD []) ∧ e.name ∉ disabled.getD [] := by
    simp [isWanted]
  have hloaded : e.IsLoaded enabled disabled ↔
      isWanted (enabled.getD []) (disabled.getD []) e.name = true ∧ e.handler?.isSome := by
    rw [hwanted, isSome_handler?_iff, and_assoc]
    rfl
  have hregister : r.register (.text e.name) e.listener? =
      match e.handler? with
      | some h => .ok (h, r.bind h)
      | none => .error (if e.name = "" then .emptyRealm else .nullRealmListener) :=
    register_eq r (some e.name) e.listener?
  rw [load, hregister]
  by_cases hw : isWanted (enabled.getD []) (disabled.getD []) e.name = true
  · rw [if_pos hw]
    cases hhandler : e.handler? with
    | none =>
      have hskipped : ¬ e.IsLoaded enabled disabled := fun hl => by
        simpa [hhandler] using (hloaded.mp hl).2
      rw [if_neg hskipped]
    | some h =>
      rw [if_pos (hloaded.mpr ⟨hw, by rw [hhandler]; rfl⟩)]
      rfl
  · rw [if_neg hw, if_neg fun hl => hw (hloaded.mp hl).1]

/-- Discovery answers the names of the entry points it loads and binds the handlers they give. -/
theorem discover_eq (r : Registry L) (entryPoints : List (EntryPoint L))
    (enabled disabled : Option (List String)) :
    r.discover entryPoints (enabled.getD []) (disabled.getD []) =
      ((entryPoints.filter (·.IsLoaded enabled disabled)).map EntryPoint.name,
        ((entryPoints.filter (·.IsLoaded enabled disabled)).filterMap EntryPoint.handler?).foldl
          bind r) := by
  -- the loop carries the names that it has noted so far, so these stand in front of the others
  suffices ∀ names : List String, ∀ r : Registry L,
      entryPoints.foldl (load (enabled.getD []) (disabled.getD [])) (names, r) =
        (names ++ (entryPoints.filter (·.IsLoaded enabled disabled)).map EntryPoint.name,
          ((entryPoints.filter (·.IsLoaded enabled disabled)).filterMap EntryPoint.handler?).foldl
            bind r) from this [] r
  induction entryPoints with
  | nil => simp
  | cons e rest ih =>
    intro names r
    rw [List.foldl_cons, load_eq]
    by_cases hloaded : e.IsLoaded enabled disabled
    · rw [if_pos hloaded, ih, List.filter_cons_of_pos (by simpa using hloaded), List.map_cons,
        List.append_assoc, List.singleton_append, List.filterMap_cons]
      cases e.handler? <;> rfl
    · rw [if_neg hloaded, ih, List.filter_cons_of_neg (by simpa using hloaded)]

/-- Handlers bound one after the other leave an orderly registry, in which every realm has been
rebound as often as one of them was its own. -/
theorem Orderly.foldl_bind (hr : r.Orderly) (handlers : List (Handler L)) :
    (handlers.foldl Registry.bind r).Orderly ∧
      ∀ name, (handlers.foldl Registry.bind r).handler? name =
        (handlers.map .bound).foldl (Rebinding.leaves name) (r.handler? name) := by
  induction handlers generalizing r with
  | nil => exact ⟨hr, fun _ => rfl⟩
  | cons h rest ih =>
    obtain ⟨horderly, hfound⟩ := ih (hr.bind h)
    refine ⟨horderly, fun name => ?_⟩
    rw [List.foldl_cons, hfound, handler?_bind]
    rfl

/-- A call leaves an orderly registry, in which every realm has seen the rebindings of the call. -/
theorem Orderly.after (hr : r.Orderly) (call : RegistryCall L) :
    (r.after call).Orderly ∧
      ∀ name, (r.after call).handler? name =
        call.rebindings.foldl (Rebinding.leaves name) (r.handler? name) := by
  cases call with
  | register realm listener =>
    rw [Registry.after, register_eq, RegistryCall.rebindings]
    cases Handler.of? realm listener with
    | none => exact ⟨hr, fun _ => rfl⟩
    | some h => exact ⟨hr.bind h, fun name => handler?_bind r h name⟩
  | unregister realm =>
    cases realm with
    | none => exact ⟨hr, fun _ => rfl⟩
    | some name =>
      obtain ⟨next, hnext, horderly, hfound⟩ := hr.unregister_text name
      rw [Registry.after, Value.ofText?, hnext]
      exact ⟨horderly, hfound⟩
  | discover entryPoints enabled disabled =>
    rw [Registry.after, discover_eq, RegistryCall.rebindings]
    exact hr.foldl_bind _

/-- After any calls on an orderly registry it is orderly, and every realm has seen all their
rebindings. -/
theorem Orderly.calls (hr : r.Orderly) (calls : List (RegistryCall L)) :
    (calls.foldl Registry.after r).Orderly ∧
      ∀ name, (calls.foldl Registry.after r).handler? name =
        (calls.flatMap RegistryCall.rebindings).foldl (Rebinding.leaves name)
          (r.handler? name) := by
  induction calls generalizing r with
  | nil => exact ⟨hr, fun _ => rfl⟩
  | cons call rest ih =>
    obtain ⟨horderly, hfound⟩ := hr.after call
    refine ⟨(ih horderly).1, fun name => ?_⟩
    rw [List.foldl_cons, (ih horderly).2, hfound, List.flatMap_cons, List.foldl_append]

end Registry

namespace Rebinding

variable {name : String} {held : Option (Handler L)} {history : List (Rebinding L)}

/-- The rebinding of another realm leaves a realm its handler. -/
theorem leaves_of_ne {change : Rebinding L} (hother : change.realm ≠ name) :
    change.leaves name held = held := by
  cases change <;> exact if_neg hother

/-- So do any rebindings of other realms. -/
theorem foldl_leaves_of_ne (hother : ∀ change ∈ history, change.realm ≠ name) :
    history.foldl (leaves name) held = held := by
  induction history with
  | nil => rfl
  | cons change rest ih =>
    rw [List.foldl_cons, leaves_of_ne (hother _ List.mem_cons_self)]
    exact ih fun later hlater => hother later (List.mem_cons_of_mem _ hlater)

/-- What happens to a realm itself leaves it a handler only by binding it to that one. -/
theorem leaves_eq_some_iff {change : Rebinding L} {h : Handler L} (hown : change.realm = name) :
    change.leaves name held = some h ↔ change = .bound h := by
  cases change with
  | bound given => simp [leaves, show given.realm = name from hown]
  | unbound realm => simp [leaves, show realm = name from hown]

/-- A handler is what a realm was bound to last when a history splits at its binding, and nothing
concerns the realm after it. -/
def BoundLast (history : List (Rebinding L)) (h : Handler L) : Prop :=
  ∃ before after, history = before ++ .bound h :: after ∧
    ∀ change ∈ after, change.realm ≠ h.realm

/-- A history begins with a binding that nothing follows, or the realm is bound last in its rest. -/
theorem boundLast_cons {change : Rebinding L} {h : Handler L} :
    BoundLast (change :: history) h ↔
      change = .bound h ∧ (∀ later ∈ history, later.realm ≠ h.realm) ∨ BoundLast history h := by
  constructor
  · rintro ⟨before, after, hsplit, hsilent⟩
    cases before with
    | nil =>
      obtain ⟨rfl, rfl⟩ := List.cons_eq_cons.mp hsplit
      exact .inl ⟨rfl, hsilent⟩
    | cons _ before =>
      obtain ⟨-, rfl⟩ := List.cons_eq_cons.mp hsplit
      exact .inr ⟨before, after, rfl, hsilent⟩
  · rintro (⟨rfl, hsilent⟩ | ⟨before, after, rfl, hsilent⟩)
    · exact ⟨[], history, rfl, hsilent⟩
    · exact ⟨change :: before, after, rfl, hsilent⟩

/-- After a history a realm has the handler it was bound to last, or else, if nothing concerned it,
the one it had. -/
theorem foldl_leaves_eq_some_iff {h : Handler L} :
    history.foldl (leaves name) held = some h ↔
      h.realm = name ∧ BoundLast history h ∨
        held = some h ∧ ∀ change ∈ history, change.realm ≠ name := by
  induction history generalizing held with
  | nil => simp [BoundLast]
  | cons change rest ih =>
    rw [List.foldl_cons, ih, boundLast_cons, List.forall_mem_cons]
    by_cases hchange : change.realm = name
    · rw [leaves_eq_some_iff hchange]
      constructor
      · rintro (⟨hname, hlast⟩ | ⟨rfl, hsilent⟩)
        · exact .inl ⟨hname, .inr hlast⟩
        · obtain rfl : h.realm = name := hchange
          exact .inl ⟨rfl, .inl ⟨rfl, hsilent⟩⟩
      · rintro (⟨rfl, ⟨hbound, hsilent⟩ | hlast⟩ | ⟨-, hne, -⟩)
        · exact .inr ⟨hbound, hsilent⟩
        · exact .inl ⟨rfl, hlast⟩
        · exact absurd hchange hne
    · rw [leaves_of_ne hchange]
      constructor
      · rintro (⟨hname, hlast⟩ | ⟨hheld, hsilent⟩)
        · exact .inl ⟨hname, .inr hlast⟩
        · exact .inr ⟨hheld, hchange, hsilent⟩
      · rintro (⟨hname, ⟨rfl, -⟩ | hlast⟩ | ⟨hheld, -, hsilent⟩)
        · exact absurd hname hchange
        · exact .inl ⟨hname, hlast⟩
        · exact .inr ⟨hheld, hsilent⟩

end Rebinding

namespace Registry

variable {r : Registry L} {history : List (Rebinding L)}

/-- A registry reflects a history when each realm has the handler bound to it last and not unbound
since, and when its list of realms, its size and its membership test agree on these. -/
structure Reflects (r : Registry L) (history : List (Rebinding L)) : Prop where
  /-- Looking up a realm never fails, and finds just the handler the realm was bound to last. -/
  bindings : ∀ realm, ∃ held, r.lookup (.ofText? realm) = .ok held ∧
    ∀ h, held = some h ↔ realm = some h.realm ∧ Rebinding.BoundLast history h
  /-- The realms are listed in strictly increasing order. -/
  increasing : r.realms.Pairwise (· < ·)
  /-- Just the realms with a handler are listed. -/
  listed : ∀ name, name ∈ r.realms ↔ ∃ h, r.lookup (.text name) = .ok (some h)
  /-- Just they are members. -/
  members : ∀ realm, r.contains (.ofText? realm) = .ok (realm.any (· ∈ r.realms))
  /-- There are as many of them as the registry says. -/
  counted : r.size = r.realms.length

/-- The realms are the keys of the handlers in some order. -/
theorem realms_perm (r : Registry L) : r.realms.Perm (r.handlers.map Prod.fst) :=
  List.mergeSort_perm _ _

/-- In an orderly registry a realm is listed when it has a handler. -/
theorem Orderly.mem_realms_iff (hr : r.Orderly) (name : String) :
    name ∈ r.realms ↔ (r.handler? name).isSome := by
  rw [r.realms_perm.mem_iff, Option.isSome_iff_exists, List.mem_map]
  constructor
  · rintro ⟨⟨key, h⟩, hmem, rfl⟩
    exact ⟨h, hr.keyed.find?_eq_some_iff.mpr hmem⟩
  · rintro ⟨h, hfound⟩
    exact ⟨(name, h), hr.keyed.find?_eq_some_iff.mp hfound, rfl⟩

/-- The realms of an orderly registry increase. -/
theorem Orderly.realms_increasing (hr : r.Orderly) : r.realms.Pairwise (· < ·) := by
  have htrans (a b c : String) (hab : decide (a ≤ b)) (hbc : decide (b ≤ c)) : decide (a ≤ c) :=
    decide_eq_true (le_trans (of_decide_eq_true hab) (of_decide_eq_true hbc))
  have htotal (a b : String) : decide (a ≤ b) || decide (b ≤ a) := by
    simpa using le_total a b
  have hsorted : r.realms.Pairwise fun a b => decide (a ≤ b) :=
    List.pairwise_mergeSort htrans htotal _
  have hdistinct : r.realms.Nodup := r.realms_perm.nodup_iff.mpr hr.keyed
  refine (hsorted.and hdistinct).imp fun hab => ?_
  exact lt_of_le_of_ne (of_decide_eq_true hab.1) hab.2

/-- An orderly registry reflects a history that its handlers come from. -/
theorem Orderly.reflects (hr : r.Orderly)
    (hhistory : ∀ name, r.handler? name = history.foldl (Rebinding.leaves name) none) :
    r.Reflects history where
  bindings
    | none => ⟨none, rfl, by simp⟩
    | some name => by
      refine ⟨r.handler? name, hr.lookup_text name, fun h => ?_⟩
      rw [hhistory, Rebinding.foldl_leaves_eq_some_iff, Option.some.injEq, eq_comm]
      simp
  increasing := hr.realms_increasing
  listed name := by
    rw [hr.mem_realms_iff, hr.lookup_text, Option.isSome_iff_exists]
    simp
  members
    | none => rfl
    | some name => by
      have hmember : r.contains (.text name) = .ok (r.handler? name).isSome := rfl
      rw [Value.ofText?, hmember, Option.any_some]
      congr 1
      rw [Bool.eq_iff_iff, decide_eq_true_iff, hr.mem_realms_iff]
  counted := by
    rw [size, r.realms_perm.length_eq, List.length_map]

/-- A registry refuses to bind what has no name or no listener: it says that an argument is invalid,
and nothing changes. -/
def RefusesInvalid (r : Registry L) : Prop :=
  ∀ realm listener, realm.getD "" = "" ∨ listener = none →
    (∃ e, r.register (.ofText? realm) listener = .error e ∧ e.kind = .invalidArgument) ∧
      r.after (.register realm listener) = r

/-- Discovery on a registry answers the names of the entry points that it loads, in their order, and
leaves all other bindings alone. -/
def DiscoversLoaded (r : Registry L) : Prop :=
  ∀ entryPoints enabled disabled,
    (r.discover entryPoints (enabled.getD []) (disabled.getD [])).1 =
        (entryPoints.filter (·.IsLoaded enabled disabled)).map EntryPoint.name ∧
      ∀ name ∉ (r.discover entryPoints (enabled.getD []) (disabled.getD [])).1,
        (r.discover entryPoints (enabled.getD []) (disabled.getD [])).2.lookup (.text name) =
          r.lookup (.text name)

/-- Every registry refuses what has no name or no listener. -/
theorem refusesInvalid (r : Registry L) : r.RefusesInvalid := by
  intro realm listener hinvalid
  have hnone : Handler.of? realm listener = none := by
    cases realm with
    | none => rfl
    | some name =>
      cases listener with
      | none => rfl
      | some l => exact dif_pos (by simpa using hinvalid)
  have hregister := register_eq r realm listener
  rw [hnone] at hregister
  refine ⟨⟨_, hregister, ?_⟩, ?_⟩
  · split <;> rfl
  · rw [after, hregister]

/-- Discovery on an orderly registry rebinds the realms that it answers, and no others. -/
theorem Orderly.discoversLoaded (hr : r.Orderly) : r.DiscoversLoaded := by
  intro entryPoints enabled disabled
  obtain ⟨horderly, hfound⟩ := hr.after (.discover entryPoints enabled disabled)
  rw [Registry.after] at horderly hfound
  have hnames := congrArg Prod.fst (discover_eq r entryPoints enabled disabled)
  refine ⟨hnames, fun name hname => ?_⟩
  rw [horderly.lookup_text, hr.lookup_text, hfound]
  congr 1
  refine Rebinding.foldl_leaves_of_ne fun change hchange hrealm => hname ?_
  rw [RegistryCall.rebindings, List.mem_map] at hchange
  obtain ⟨h, hmem, rfl⟩ := hchange
  obtain ⟨e, hloaded, hgiven⟩ := List.mem_filterMap.mp hmem
  rw [hnames, List.mem_map]
  refine ⟨e, hloaded, ?_⟩
  rw [← hrealm]
  exact (Handler.realm_of? hgiven).symm

/-- Whatever was called on a registry since it was empty: each realm has the handler that it was
bound to last, by a registration or by discovery, and has none if it was unbound since; a
registration without a name or a listener is refused; and discovery, which does not fail, loads just
what is to be loaded. -/
theorem calls_boundLast (calls : List (RegistryCall L)) :
    (calls.foldl after empty).Reflects (calls.flatMap RegistryCall.rebindings) ∧
      (calls.foldl after empty).RefusesInvalid ∧ (calls.foldl after empty).DiscoversLoaded := by
  obtain ⟨horderly, hfound⟩ := orderly_empty.calls calls
  exact ⟨horderly.reflects hfound, refusesInvalid _, horderly.discoversLoaded⟩

end Registry

end BearerSession
