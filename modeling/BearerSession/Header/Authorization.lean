import BearerSession.Text.Basic

/-!
# The authorization header

The cached header names the scheme and both tokens; without either token there is none.
-/

namespace BearerSession.Header

/-- The scheme of the authorization header, and the mark of a challenge. -/
def bearer : String := "Bearer"

/-- The name of the header that carries the tokens. -/
def authorizationName : String := "Authorization"

/-- The header made of two tokens. -/
def ofTokens (accessToken idToken : String) : String :=
  bearer ++ " " ++ accessToken ++ " " ++ idToken

/-- The authorization header for what is known of the tokens; an empty token is none. -/
def authorization (accessToken idToken : Option String) : Option String :=
  match accessToken.bind Text.nonempty?, idToken.bind Text.nonempty? with
  | some a, some i => some (ofTokens a i)
  | _, _ => none

/-- There is a header exactly when there are two tokens that are not empty. -/
theorem authorization_eq_some_iff {accessToken idToken : Option String} {h : String} :
    authorization accessToken idToken = some h ↔
      ∃ a i, accessToken = some a ∧ idToken = some i ∧ a ≠ "" ∧ i ≠ "" ∧ h = ofTokens a i := by
  have present (o : Option String) (s : String) :
      o.bind Text.nonempty? = some s ↔ o = some s ∧ s ≠ "" := by
    cases o with
    | none => simp
    | some u =>
      simp only [Option.bind_some, Text.nonempty?_eq_some_iff, Option.some.injEq]
      constructor
      · rintro ⟨rfl, hu⟩
        exact ⟨rfl, hu⟩
      · rintro ⟨rfl, hu⟩
        exact ⟨rfl, hu⟩
  unfold authorization
  constructor
  · intro heq
    split at heq
    · rename_i a i ha hi
      obtain ⟨ha, hane⟩ := (present accessToken a).mp ha
      obtain ⟨hi, hine⟩ := (present idToken i).mp hi
      cases heq
      exact ⟨a, i, ha, hi, hane, hine, rfl⟩
    · cases heq
  · rintro ⟨a, i, ha, hi, hane, hine, rfl⟩
    simp only [(present accessToken a).mpr ⟨ha, hane⟩, (present idToken i).mpr ⟨hi, hine⟩]

end BearerSession.Header
