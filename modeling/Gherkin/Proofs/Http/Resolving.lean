import Gherkin.Http.Network
import Gherkin.Proofs.Text.Splitting
import Gherkin.Proofs.Text.Trimming
import Gherkin.World

/-!
Contract: the address that a path comes to under a base address.

Owns: which paths are addresses by themselves, that slashes at the end of a base make no
difference to a path that starts with one, and that an address is not resolved again.
Does not own: how an address is read (`Gherkin.Http.Client`).
Main statement: `urlFor_of_base`.
-/

set_option autoImplicit false

namespace Gherkin.World

theorem isAbsolute_iff {path : List Char} :
    isAbsolute path = true ↔ "http://".toList <+: path ∨ "https://".toList <+: path := by
  have starts (scheme : String) :
      (Text.after? scheme path).isSome = true ↔ scheme.toList <+: path := by
    rw [Option.isSome_iff_exists]
    constructor
    · rintro ⟨rest, after⟩
      exact ⟨rest, (Text.after?_eq_some_iff.mp after).symm⟩
    · rintro ⟨rest, whole⟩
      exact ⟨rest, Text.after?_eq_some_iff.mpr whole.symm⟩
  rw [isAbsolute, Bool.or_eq_true, starts, starts]

theorem resolveAt_of_isAbsolute
    (base : List Char) {path : List Char} (absolute : isAbsolute path = true) :
    resolveAt base path = path := by
  rw [resolveAt, if_pos absolute]

theorem not_isAbsolute_of_slash {path : List Char} (slash : path.head? = some '/') :
    ¬ isAbsolute path = true := by
  rw [isAbsolute_iff]
  rintro (⟨rest, rfl⟩ | ⟨rest, rfl⟩) <;> cases slash

/-- All slashes at the end of the base go where the path brings one along. -/
theorem resolveAt_slashes
    {base path : List Char} (bare : base.getLast? ≠ some '/') (slash : path.head? = some '/')
    (count : Nat) : resolveAt (base ++ List.replicate count '/') path = base ++ path := by
  rw [resolveAt, if_neg (not_isAbsolute_of_slash slash)]
  cases count with
  | zero => simp [bare]
  | succ count =>
      have ends : (base ++ List.replicate (count + 1) '/').getLast? = some '/' := by
        rw [List.replicate_succ', ← List.append_assoc, List.getLast?_concat]
      rw [if_pos (by simp [ends, slash]),
        Text.dropEndWhile_eq_iff.mpr ⟨count + 1, rfl, bare⟩]

/-- Behind the scheme some character stops the slashes from going, so the scheme stays. -/
theorem isAbsolute_resolveAt
    {scheme rest : List Char} (absolute : ∀ behind, isAbsolute (scheme ++ behind) = true)
    (stops : ∃ c ∈ rest, c ≠ '/') (path : List Char) :
    isAbsolute (resolveAt (scheme ++ rest) path) = true := by
  rw [resolveAt]
  split
  · next isAbsolutePath => exact isAbsolutePath
  · split
    · have kept : Text.dropEndWhile (· == '/') (scheme ++ rest) =
          scheme ++ Text.dropEndWhile (· == '/') rest :=
        Text.dropEndWhile_append_of_exists scheme (by simpa using stops)
      rw [kept, List.append_assoc]
      exact absolute _
    · rw [List.append_assoc]
      exact absolute _

/-- Under a base with any number of slashes at its end a path that starts with a slash comes
to the base without them and the path. Under a base of a web scheme with more than slashes
behind it, what a path comes to is not resolved any further. -/
theorem urlFor_of_base :
    (∀ (world : World) (base path : String) (count : Nat),
      world.baseUrl = base ++ String.ofList (List.replicate count '/') →
        base.toList.getLast? ≠ some '/' → path.toList.head? = some '/' →
          world.urlFor path = base ++ path) ∧
      ∀ (world : World) (scheme rest path : String),
        scheme = "http://" ∨ scheme = "https://" → world.baseUrl = scheme ++ rest →
          (∃ c ∈ rest.toList, c ≠ '/') →
            world.urlFor (world.urlFor path) = world.urlFor path := by
  refine ⟨?_, ?_⟩
  · intro world base path count isBase bare slash
    rw [urlFor, isBase, String.toList_append, String.toList_ofList,
      resolveAt_slashes bare slash, String.ofList_append, String.ofList_toList,
      String.ofList_toList]
  · intro world scheme rest path isScheme isBase stops
    have absolute (behind : List Char) : isAbsolute (scheme.toList ++ behind) = true := by
      rw [isAbsolute_iff]
      rcases isScheme with rfl | rfl
      · exact .inl (List.prefix_append _ _)
      · exact .inr (List.prefix_append _ _)
    have resolved := isAbsolute_resolveAt absolute stops path.toList
    rw [urlFor, urlFor, isBase, String.toList_append, String.toList_ofList,
      resolveAt_of_isAbsolute _ resolved]

/-- A base with three slashes at its end. -/
theorem urlFor_of_base_with_slashes :
    let world := World.start (.ofText "BASE_URL = http://h.test///") (.plain fun _ => .unanswered)
    world.urlFor "/users" = "http://h.test/users" ∧
      world.urlFor (world.urlFor "/users") = world.urlFor "/users" := by
  intro world
  have isBase : world.baseUrl = "http://h.test" ++ String.ofList (List.replicate 3 '/') := by
    decide +kernel
  have sameBase : world.baseUrl = "http://" ++ "h.test///" := by decide +kernel
  have host : ∃ c ∈ "h.test///".toList, c ≠ '/' := ⟨'h', by simp, by decide⟩
  obtain ⟨slashes, again⟩ := urlFor_of_base
  exact ⟨slashes world "http://h.test" "/users" 3 isBase (by decide) (by decide),
    again world "http://" "h.test///" "/users" (.inl rfl) sameBase host⟩

/-- A base of slashes alone behind its scheme loses those of the scheme too, so the address
is relative again. -/
example :
    resolveAt "http://".toList (resolveAt "http://".toList "/a".toList) ≠
      resolveAt "http://".toList "/a".toList := by
  decide +kernel

end Gherkin.World
