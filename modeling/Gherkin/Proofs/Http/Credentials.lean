import Gherkin.Http.Address
import Gherkin.Proofs.Text.Splitting

/-!
Contract: an address from which credentials are taken shows no trace of them.

Owns: which characters hosts, numbers and bytes are written with, and that an `@` is left in
no authority from which the plain client takes a user or a password.
Does not own: the header in which credentials go out (`Gherkin.Http.Client`).
Main statement: `Client.plain_hides_credentials`.

Only an `@` sets credentials apart from the host, so an authority without one names none.
-/

set_option autoImplicit false

namespace Gherkin

namespace Text

/-! ## Digits and bytes -/

theorem digitChar_ne_at : ∀ digit < 16,
    Nat.digitChar digit ≠ '@' ∧ (Nat.digitChar digit).toUpper ≠ '@' := by
  decide

theorem at_not_mem_toDigits {base : Nat} (many : 1 < base) (few : base ≤ 16) (n : Nat) :
    '@' ∉ Nat.toDigits base n := by
  have digit {n : Nat} (small : n < base) : '@' ≠ Nat.digitChar n :=
    (digitChar_ne_at n (Nat.lt_of_lt_of_le small few)).1.symm
  induction n using Nat.strongRecOn with
  | ind n inductionHypothesis =>
      rw [Nat.toDigits_eq_if many]
      split
      · next small => exact List.mem_singleton.not.mpr (digit small)
      · next large =>
          have shorter : n / base < n := Nat.div_lt_self (by omega) many
          have last : '@' ≠ Nat.digitChar (n % base) := digit (Nat.mod_lt n (by omega))
          rw [List.mem_append, not_or]
          exact ⟨inductionHypothesis _ shorter, List.mem_singleton.not.mpr last⟩

theorem at_not_mem_numeral (n : Nat) : '@' ∉ (numeral n).toList := by
  rw [numeral, String.toList_ofList]
  exact at_not_mem_toDigits (by decide) (by decide) n

theorem at_not_mem_join
    {separator : String} {parts : List String} (between : '@' ∉ separator.toList)
    (inside : ∀ part ∈ parts, '@' ∉ part.toList) : '@' ∉ (join separator parts).toList := by
  rw [join, String.toList_ofList]
  exact not_mem_intercalate between (List.forall_mem_map.mpr inside)

theorem at_not_mem_percentByte (byte : UInt8) : '@' ∉ percentByte byte := by
  have bound := byte.toNat_lt
  have high := (digitChar_ne_at (byte.toNat / 16) (by omega)).2
  have low := (digitChar_ne_at (byte.toNat % 16) (by omega)).2
  simp [percentByte, high.symm, low.symm]

theorem at_not_mem_percentEncoded
    {isKept : Char → Bool} {cs : List Char} (free : '@' ∉ cs) :
    '@' ∉ percentEncoded isKept cs := by
  intro member
  obtain ⟨c, isChar, written⟩ := List.mem_flatMap.mp member
  split at written
  · exact free (List.mem_singleton.mp written ▸ isChar)
  · obtain ⟨byte, -, inByte⟩ := List.mem_flatMap.mp written
    exact at_not_mem_percentByte byte inByte

end Text

namespace Http

/-! ## Hosts -/

namespace Host

/-- No mark of credentials stands in the host. -/
def Unmarked (host : Host) : Prop :=
  '@' ∉ host.render.toList

theorem unmarked_ipv4 (address : Nat) : (ipv4 address).Unmarked := by
  apply Text.at_not_mem_join (by decide)
  exact List.forall_mem_map.mpr fun _ _ => Text.at_not_mem_numeral _

theorem at_not_mem_colonJoined (groups : List Nat) : '@' ∉ (colonJoined groups).toList := by
  apply Text.at_not_mem_join (by decide)
  intro part member
  obtain ⟨group, -, rfl⟩ := List.mem_map.mp member
  rw [String.toList_ofList]
  exact Text.at_not_mem_toDigits (by decide) (by decide) group

theorem unmarked_ipv6 (groups : List Nat) : (ipv6 groups).Unmarked := by
  have shortened : '@' ∉ (shortened groups).toList := by
    rw [shortened]
    show '@' ∉ (if _ then _ else _ : String).toList
    split
    · exact at_not_mem_colonJoined groups
    · simp [at_not_mem_colonJoined]
  simpa [Unmarked, render] using shortened

theorem unmarked_of_ofWebText? {cs : List Char} {host : Host} (read : ofWebText? cs = some host) :
    host.Unmarked := by
  obtain ⟨decoded, -, isHost⟩ := Option.bind_eq_some_iff.mp read
  unfold ofWebChars? at isHost
  simp only at isHost
  split at isHost
  · contradiction
  · next allowed =>
      split at isHost
      · obtain ⟨address, -, rfl⟩ := Option.map_eq_some_iff.mp isHost
        exact unmarked_ipv4 address
      · obtain rfl := Option.some.inj isHost
        rw [Unmarked, render, String.toList_ofList]
        intro member
        apply allowed
        rw [Bool.or_eq_true, List.any_eq_true]
        exact .inr ⟨'@', member, by decide⟩

theorem unmarked_of_ofPlainText?
    {cs : List Char} {host : Host} (read : ofPlainText? cs = some host) : host.Unmarked := by
  unfold ofPlainText? at read
  split at read
  · contradiction
  · next allowed =>
      obtain rfl := Option.some.inj read
      have free : '@' ∉ cs := by
        intro member
        have forbidden : cs.any isForbidden = true :=
          List.any_eq_true.mpr ⟨'@', member, by decide⟩
        simp [forbidden] at allowed
      rw [Unmarked, render, String.toList_ofList]
      exact Text.at_not_mem_percentEncoded free

end Host

/-! ## Authorities -/

namespace Authority

variable {readHost? : List Char → Option Host} {usual : Option Nat} {cs : List Char}

theorem unmarked_of_ofText?
    (unmarked : ∀ cs host, readHost? cs = some host → host.Unmarked) {authority : Authority}
    (read : ofText? readHost? usual cs = some authority) : '@' ∉ authority.render.toList := by
  have host : authority.host.Unmarked := by
    unfold ofText? at read
    split at read
    · obtain ⟨cut, -, isAuthority⟩ := Option.bind_eq_some_iff.mp read
      obtain ⟨host, isHost, found⟩ := Option.bind_eq_some_iff.mp isAuthority
      obtain ⟨number, -, rfl⟩ := Option.map_eq_some_iff.mp found
      obtain ⟨groups, -, rfl⟩ := Option.map_eq_some_iff.mp isHost
      exact Host.unmarked_ipv6 groups
    · obtain ⟨host, isHost, found⟩ := Option.bind_eq_some_iff.mp read
      obtain ⟨number, -, rfl⟩ := Option.map_eq_some_iff.mp found
      exact unmarked _ host isHost
  have behind (number : Option Nat) :
      '@' ∉ (number.elim "" fun number => ":" ++ Text.numeral number).toList := by
    cases number with
    | none => exact List.not_mem_nil
    | some number => simp [Text.at_not_mem_numeral]
  rw [render, String.toList_append, List.mem_append, not_or]
  exact ⟨host, behind authority.number⟩

/-- Credentials that are taken off leave an authority without a mark. -/
theorem unmarked_of_normal?
    (unmarked : ∀ cs host, readHost? cs = some host → host.Unmarked)
    {text : String} {credentials : Credentials}
    (read : normal? readHost? usual cs = some (text, some credentials)) : '@' ∉ text.toList := by
  obtain ⟨authority, isAuthority, isNormal⟩ := Option.map_eq_some_iff.mp read
  split at isNormal
  · obtain ⟨rfl, -⟩ := Prod.mk.inj isNormal
    exact unmarked_of_ofText? unmarked isAuthority
  · cases isNormal

end Authority

/-! ## Addresses -/

namespace Address

/-- If the address names credentials, then its authority does not. -/
def Hides (address : Address) : Prop :=
  address.credentials ≠ none → ∀ authority ∈ address.url.authority, '@' ∉ authority.toList

theorem hides_ofParts
    {scheme : String} {authority : String × Option Credentials} {path : List Char → List Char}
    {isQuery : Char → Bool} {rest : List Char}
    (unmarked : ∀ credentials, authority.2 = some credentials → '@' ∉ authority.1.toList) :
    (ofParts scheme (some authority) path isQuery rest).Hides := by
  intro named text isAuthority
  obtain rfl : authority.1 = text := Option.some.inj isAuthority
  obtain ⟨credentials, isNamed⟩ := Option.ne_none_iff_exists'.mp named
  exact unmarked credentials isNamed

theorem hides_of_ofWeb?
    {scheme : String} {usual : Nat} {cs : List Char} {address : Address}
    (read : ofWeb? scheme usual cs = some address) : address.Hides := by
  obtain ⟨⟨authority, credentials⟩, isAuthority, rfl⟩ := Option.map_eq_some_iff.mp read
  apply hides_ofParts
  rintro credentials rfl
  exact Authority.unmarked_of_normal? (fun _ _ => Host.unmarked_of_ofWebText?) isAuthority

theorem hides_of_ofOther?
    {scheme : String} {cs : List Char} {address : Address}
    (read : ofOther? scheme cs = some address) : address.Hides := by
  unfold ofOther? at read
  simp only at read
  split at read
  · obtain rfl := Option.some.inj read
    exact fun named => absurd rfl named
  · obtain ⟨⟨authority, credentials⟩, isAuthority, rfl⟩ := Option.map_eq_some_iff.mp read
    apply hides_ofParts
    rintro credentials rfl
    exact Authority.unmarked_of_normal? (fun _ _ => Host.unmarked_of_ofPlainText?) isAuthority

theorem hides_of_ofText? {text : String} {address : Address} (read : ofText? text = some address) :
    address.Hides := by
  obtain ⟨⟨scheme, rest⟩, -, found⟩ := Option.bind_eq_some_iff.mp read
  simp only at found
  split at found
  · split at found
    · exact hides_of_ofWeb? found
    · exact hides_of_ofOther? found
  · contradiction

end Address

/-- Where the text of an address names a user or a password, the address that is sent to
names neither. -/
theorem Client.plain_hides_credentials
    {text : String} {credentials : Credentials} {url : Url}
    (named : Client.plain.credentials? text = some credentials)
    (reads : Client.plain.url? text = some url) :
    ∀ authority ∈ url.authority, '@' ∉ authority.toList := by
  obtain ⟨address, read, isCredentials⟩ := Option.bind_eq_some_iff.mp named
  rw [Client.url?, read] at reads
  obtain rfl := Option.some.inj reads
  apply Address.hides_of_ofText? read
  rw [isCredentials]
  exact Option.some_ne_none credentials

end Http

end Gherkin
