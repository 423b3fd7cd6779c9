import CronHive.Async.Solo
import CronHive.Ipv6Spellings
import CronHive.System

/-!
# The check of a callback URL

With a resolver in place of the network, the hosts that `assertSafeCallbackUrl` accepts: those
that stand for public addresses only, but for the bracketed IPv6 literals, which the resolver
does not take.
-/

namespace CronHive

set_option autoImplicit false

open Async Async.Prog Async.Machine

/-- An IPv6 address as `URL.hostname` gives it. -/
def bracketed (address : String) : String := "[" ++ address ++ "]"

/-- What `lookup(host, { all: true })` gives, `none` if it fails. A bare literal stands for
itself, and a bracketed one is neither a literal nor a name. -/
structure Resolver where
  lookup : String → Option (List String)
  literal : ∀ host, Net.isIPv4 host = true ∨ Net.isIPv6 host = true → lookup host = some [host]
  brackets : ∀ address, Net.isIPv6 address = true → lookup (bracketed address) = none

theorem bracketed_toList (address : String) :
    (bracketed address).toList = '[' :: (address.toList ++ [']']) := by
  simp [bracketed]

theorem bracketed_inj {address address' : String} :
    bracketed address = bracketed address' ↔ address = address' := by
  rw [← String.toList_inj, bracketed_toList, bracketed_toList, ← String.toList_inj]
  simp

theorem isIPv4_bracketed (address : String) : Net.isIPv4 (bracketed address) = false := by
  by_contra h
  have h4 : Net.v4Chars (bracketed address).toList = true := by simpa [Net.isIPv4] using h
  have hbracket : '[' ∈ (bracketed address).toList := by
    rw [bracketed_toList]
    exact List.mem_cons_self
  obtain hdot | hdigit := v4Chars_chars h4 hbracket
  · cases hdot
  · cases hdigit

theorem isIPv6_bracketed (address : String) : Net.isIPv6 (bracketed address) = false := by
  by_contra h
  obtain ⟨⟨rest, htext⟩, _⟩ | ⟨piece, rest, htext, _, hseg, _⟩ :=
    text_first (by simpa using h)
  · rw [bracketed_toList] at htext
    cases htext
  · obtain ⟨⟨hnonempty, _⟩, hdigits⟩ := v6Seg_iff.mp hseg
    cases piece with
    | nil => cases hnonempty
    | cons c piece =>
      rw [bracketed_toList] at htext
      obtain rfl : '[' = c := (List.cons.inj htext).1
      exact absurd (hdigits '[' List.mem_cons_self) (by decide)

namespace Resolver

variable (R : Resolver)

def outcome : Call → Async.Outcome Choice Failure
  | .dnsLookup host =>
      match R.lookup host with
      | some addresses => .answered { addresses := addresses }
      | none => .rejected (.error s!"getaddrinfo ENOTFOUND {host}")
  | _ => .answered {}

inductive Denotes : String → List String → Prop where
  | ipv4 {host : String} (h : Net.isIPv4 host = true) : Denotes host [host]
  | ipv6 {address : String} (h : Net.isIPv6 address = true) :
      Denotes (bracketed address) [address]
  | name {host : String} {addresses : List String} (h : Net.isIPv4 host = false)
      (hbrackets : ∀ address, Net.isIPv6 address = true → host ≠ bracketed address)
      (hlookup : R.lookup host = some addresses) : Denotes host addresses

def Safe (host : String) : Prop :=
  ∃ addresses, R.Denotes host addresses ∧ addresses ≠ [] ∧
    ∀ a ∈ addresses, isPrivateAddress a = false

/-- `assertSafeCallbackUrl` returns ok. -/
def Accepts (S : Setup) (w : World) (rawUrl : String) : Prop :=
  ∃ result, ((system S).solo R.outcome (assertSafeCallbackUrl S.platform rawUrl false) w).2 =
    .ok result ∧ result.ok = true

theorem denotes_bracketed {address : String} (h : Net.isIPv6 address = true)
    {addresses : List String} :
    R.Denotes (bracketed address) addresses ↔ addresses = [address] := by
  constructor
  · intro hdenotes
    generalize hhost : bracketed address = host at hdenotes
    cases hdenotes with
    | ipv4 h4 =>
      rw [← hhost, isIPv4_bracketed] at h4
      cases h4
    | ipv6 h6 => rw [bracketed_inj.mp hhost]
    | name _ hbrackets _ => exact absurd hhost.symm (hbrackets address h)
  · rintro rfl
    exact .ipv6 h

theorem denotes_iff_lookup {host : String}
    (h : ∀ address, Net.isIPv6 address = true → host ≠ bracketed address)
    {addresses : List String} : R.Denotes host addresses ↔ R.lookup host = some addresses := by
  constructor
  · intro hdenotes
    cases hdenotes with
    | ipv4 h4 => exact R.literal host (Or.inl h4)
    | ipv6 h6 => exact absurd rfl (h _ h6)
    | name _ _ hlookup => exact hlookup
  · intro hlookup
    cases h4 : Net.isIPv4 host with
    | true =>
      rw [R.literal host (Or.inl h4)] at hlookup
      cases hlookup
      exact .ipv4 h4
    | false => exact .name h4 h hlookup

end Resolver

/-- What `assertSafeCallbackUrl` returns, however its lookup comes out. -/
theorem solo_assertSafeCallbackUrl {γ Stores Tag Env : Type}
    (M : Machine Call.Reply Local.Value Failure γ Stores Tag Choice Env)
    (hlookup : ∀ host x w, M.exec (.dnsLookup host) x w = (w, .ok x.addresses))
    (os : Call → Outcome Choice Failure) (P : Platform) (rawUrl : String) (allowPrivate : Bool)
    (w : Stores) : ∃ result, M.solo os (assertSafeCallbackUrl P rawUrl allowPrivate) w =
        (w, .ok result) ∧
      (result.ok = true ↔ ∃ url ∈ P.parseUrl rawUrl,
        (url.protocol = "http:" ∨ url.protocol = "https:") ∧
          (allowPrivate = false → ∃ x, os (.dnsLookup url.hostname) = .answered x ∧
            x.addresses ≠ [] ∧ ∀ a ∈ x.addresses, isPrivateAddress a = false)) := by
  unfold assertSafeCallbackUrl
  cases hparse : P.parseUrl rawUrl with
  | none => exact ⟨_, rfl, by simp⟩
  | some url =>
    simp only [Option.mem_some_iff, exists_eq_left']
    by_cases hscheme : url.protocol ≠ "http:" ∧ url.protocol ≠ "https:"
    · rw [if_pos hscheme]
      exact ⟨_, rfl, by simp [hscheme]⟩
    · have hprotocol : url.protocol = "http:" ∨ url.protocol = "https:" := by tauto
      rw [if_neg hscheme]
      cases allowPrivate with
      | true => exact ⟨_, rfl, by simp [hprotocol]⟩
      | false =>
        simp only [Bool.false_eq_true, if_false, await, bind_eq, pure_eq, tryCatch_eq, solo_bind,
          solo_tryCatch, solo_perform]
        cases hanswer : os (.dnsLookup url.hostname) with
        | answered x =>
          refine ⟨checkAddresses (some x.addresses), ?_, ?_⟩
          · simp only [attend, hlookup, solo_ret]
          · simp [checkAddresses_ok_iff, hprotocol]
        | rejected e =>
          refine ⟨checkAddresses none, ?_, by simp [checkAddresses]⟩
          simp only [attend, solo_ret]
        | lost x e =>
          refine ⟨checkAddresses none, ?_, by simp [checkAddresses]⟩
          simp only [attend, hlookup, solo_ret]

section Check

variable {S : Setup} {R : Resolver} {w : World} {rawUrl : String} {url : Url}

theorem Resolver.answered_iff {host : String} {p : List String → Prop} :
    (∃ x, R.outcome (.dnsLookup host) = .answered x ∧ p x.addresses) ↔
      ∃ addresses, R.lookup host = some addresses ∧ p addresses := by
  cases hlookup : R.lookup host with
  | none => simp [Resolver.outcome, hlookup]
  | some addresses => simp [Resolver.outcome, hlookup]

theorem accepts_iff (hparse : S.platform.parseUrl rawUrl = some url)
    (hprotocol : url.protocol = "http:" ∨ url.protocol = "https:") :
    R.Accepts S w rawUrl ↔ ∃ addresses, R.lookup url.hostname = some addresses ∧ addresses ≠ [] ∧
      ∀ a ∈ addresses, isPrivateAddress a = false := by
  obtain ⟨result, hsolo, hok⟩ := solo_assertSafeCallbackUrl (system S) (fun _ _ _ => rfl) R.outcome
    S.platform rawUrl false w
  rw [hparse] at hok
  simp only [Option.mem_some_iff, exists_eq_left', hprotocol, true_and, forall_const] at hok
  rw [Resolver.Accepts, hsolo, ← R.answered_iff, ← hok]
  simp

/-- The check accepts exactly the safe hosts unless the host is a bracketed IPv6 literal of an
address that the guard lets pass: that one it rejects. -/
theorem url_check_iff (hparse : S.platform.parseUrl rawUrl = some url)
    (hprotocol : url.protocol = "http:" ∨ url.protocol = "https:") :
    (R.Accepts S w rawUrl ↔ R.Safe url.hostname) ↔
      ∀ address, Net.isIPv6 address = true → url.hostname = bracketed address →
        isPrivateAddress address = true := by
  rw [accepts_iff hparse hprotocol]
  by_cases hbrackets : ∃ address, Net.isIPv6 address = true ∧ url.hostname = bracketed address
  · obtain ⟨address, h6, hhost⟩ := hbrackets
    have hnone : R.lookup url.hostname = none := by rw [hhost, R.brackets address h6]
    have hsafe : R.Safe url.hostname ↔ isPrivateAddress address = false := by
      unfold Resolver.Safe
      simp only [hhost, R.denotes_bracketed h6]
      simp
    have hlast : (∀ address', Net.isIPv6 address' = true → url.hostname = bracketed address' →
        isPrivateAddress address' = true) ↔ isPrivateAddress address = true := by
      constructor
      · intro h
        exact h address h6 hhost
      · intro h address' _ hhost'
        rw [← bracketed_inj.mp (hhost.symm.trans hhost')]
        exact h
    rw [hsafe, hlast, hnone]
    simp
  · have hbrackets : ∀ address, Net.isIPv6 address = true → url.hostname ≠ bracketed address :=
      fun address h6 hhost => hbrackets ⟨address, h6, hhost⟩
    refine iff_of_true ?_ fun address h6 hhost => absurd hhost (hbrackets address h6)
    unfold Resolver.Safe
    simp only [R.denotes_iff_lookup hbrackets]

end Check

/-! ## Hosts -/

namespace Sample

def lookup (host : String) : Option (List String) :=
  if Net.isIPv4 host || Net.isIPv6 host then some [host]
  else if host = "hooks.example.com" then some ["93.184.216.34", "2606:2800:21f::1"]
  else none

def resolver : Resolver where
  lookup := lookup
  literal := by
    intro host h
    simp only [lookup, if_pos (Bool.or_eq_true_iff.mpr h)]
  brackets := by
    intro address _
    have hname : bracketed address ≠ "hooks.example.com" := by
      intro heq
      have htext := congrArg String.toList heq
      rw [bracketed_toList] at htext
      cases (List.cons.inj htext).1
    simp [lookup, isIPv4_bracketed, isIPv6_bracketed, hname]

/-- The runtime's parser on a URL whose host is an IPv6 literal. -/
def bracketedSetup : Setup :=
  { setup with
    platform := { platform with parseUrl := fun _ => some ⟨"https:", "[2606:4700::1111]"⟩ } }

end Sample

theorem url_check_iff_name : Sample.resolver.Safe "hooks.example.com" ∧
    Sample.resolver.Accepts Sample.setup Sample.world "https://hooks.example.com/run" := by
  have hbrackets : ∀ address, Net.isIPv6 address = true →
      "hooks.example.com" ≠ bracketed address := by
    intro address _ heq
    have htext := congrArg String.toList heq
    rw [bracketed_toList] at htext
    cases (List.cons.inj htext).1
  have hsafe : Sample.resolver.Safe "hooks.example.com" := by
    refine ⟨["93.184.216.34", "2606:2800:21f::1"], ?_, by decide, by decide +kernel⟩
    exact .name (by decide +kernel) hbrackets (by decide +kernel)
  have hparse : Sample.setup.platform.parseUrl "https://hooks.example.com/run" =
      some ⟨"https:", "hooks.example.com"⟩ := rfl
  have hiff : Sample.resolver.Accepts Sample.setup Sample.world "https://hooks.example.com/run" ↔
      Sample.resolver.Safe "hooks.example.com" :=
    (url_check_iff hparse (Or.inr rfl)).mpr fun address h6 heq => absurd heq (hbrackets address h6)
  exact ⟨hsafe, hiff.mpr hsafe⟩

/-- The check rejects a public address written in brackets. -/
theorem bracketed_public_rejected : ¬ ∀ (S : Setup) (R : Resolver) (w : World) (rawUrl : String)
    (url : Url), S.platform.parseUrl rawUrl = some url →
      url.protocol = "http:" ∨ url.protocol = "https:" →
        (R.Accepts S w rawUrl ↔ R.Safe url.hostname) := by
  intro h
  have h6 : Net.isIPv6 "2606:4700::1111" = true := by decide +kernel
  have hpublic : isPrivateAddress "2606:4700::1111" = false := by decide +kernel
  have hhost : "[2606:4700::1111]" = bracketed "2606:4700::1111" := by decide
  have hsafe : Sample.resolver.Safe "[2606:4700::1111]" := by
    refine ⟨["2606:4700::1111"], ?_, by decide, ?_⟩
    · rw [hhost]
      exact .ipv6 h6
    · simpa using hpublic
  have haccepts := (h Sample.bracketedSetup Sample.resolver Sample.world
    "https://[2606:4700::1111]/hook" ⟨"https:", "[2606:4700::1111]"⟩ rfl (Or.inr rfl)).mpr hsafe
  obtain ⟨addresses, hlookup, _⟩ := (accepts_iff rfl (Or.inr rfl)).mp haccepts
  rw [hhost, Sample.resolver.brackets _ h6] at hlookup
  cases hlookup

end CronHive
