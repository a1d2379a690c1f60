import SoulSociety.Core.Results
import SoulSociety.Sdk.Validation

/-! Where a proof may be fetched from. `ProofDescriptor::validate` looks at the URL record,
    `isSafeArtifactUrl` at the getters of a `URL` object. Both want HTTPS, or HTTP on a loopback host.
    The SDK alone refuses credentials and fragments, and it alone counts the names under
    `localhost` as loopback. -/

namespace SoulSociety.Protocol
open Lib SoulSociety.Core

/-! ### Loopback hosts -/

/-- A byte in decimal has one to three digits. -/
theorem isOctet_decimal {n : ℕ} (h : n < 256) : Sdk.isOctet (decimal n) = true := by
  have hdigits : (decimal n).all Char.isDigit = true :=
    List.all_eq_true.mpr fun _ hc => isDigit_of_mem_decimal hc
  have hlen : (decimal n).length ≤ 3 := by
    rw [decimal, Nat.length_toDigits_le_iff (by decide) (by decide)]
    omega
  have hpos : 1 ≤ (decimal n).length := List.length_pos_iff.mpr (decimal_ne_nil n)
  simp [Sdk.isOctet, hdigits, hlen, hpos]

/-- The dotted forms of loopback addresses are those of `127.0.0.0/8`. -/
theorem isDotted127_ipv4Text {a : ℕ} : Sdk.isDotted127 (Host.ipv4Text a) = true ↔
    a / 2 ^ 24 = 127 := by
  have hmod : ∀ m, m % 256 < 256 := fun m => Nat.mod_lt m (by decide)
  have hhead : text "127" = decimal 127 := by decide
  rw [Sdk.isDotted127, Host.splitOn_ipv4Text]
  simp only [isOctet_decimal, hmod, Bool.and_true, decide_eq_true_eq, hhead]
  exact decimal_inj

/-- A domain does not look like an address. -/
theorem not_isDotted127_domain {name : Text} (h : ¬ Host.EndsInNumber name) :
    Sdk.isDotted127 name = false := by
  rw [← Bool.not_eq_true]
  intro hdotted
  rw [Sdk.isDotted127] at hdotted
  split at hdotted
  · rename_i d hsplit
    simp only [Bool.and_eq_true, Sdk.isOctet, decide_eq_true_eq] at hdotted
    obtain ⟨-, ⟨hpos, -⟩, hdigits⟩ := hdotted
    refine h ⟨d, by rw [hsplit]; rfl, List.ne_nil_of_length_pos hpos, hdigits⟩
  · cases hdotted

theorem head?_of_isDotted127 {t : Text} (h : Sdk.isDotted127 t = true) : t.head? = some '1' := by
  rw [Sdk.isDotted127] at h
  split at h
  · rename_i a b c d hsplit
    simp only [Bool.and_eq_true, decide_eq_true_eq] at h
    have hjoin : ['.'].intercalate (t.splitOn '.') = t := List.intercalate_splitOn '.'
    rw [← hjoin, hsplit, h.1.1.1]
    rfl
  · cases h

theorem getLast?_of_isSuffixOf {t : Text} (h : (text ".localhost").isSuffixOf t = true) :
    t.getLast? = some 't' := by
  obtain ⟨front, rfl⟩ := List.isSuffixOf_iff_suffix.mp h
  simp [text]

theorem hostname_ne_nil {url : Url} (hdomain : ∀ name, url.host = some (.domain name) → name ≠ [])
    (h : url.host.isSome = true) : url.hostname ≠ [] := by
  obtain ⟨host, hhost⟩ := Option.isSome_iff_exists.mp h
  rw [Url.hostname, hhost, Option.map_some, Option.getD_some]
  cases host with
  | domain name => exact hdomain name hhost
  | ipv4 a => simp [Host.serialize, Host.ipv4Text]
  | ipv6 a => exact List.cons_ne_nil _ _

/-- `soul-core` asks whether the host is `localhost` or a loopback address. -/
theorem isLoopbackHost_iff {url : Url}
    (hlower : ∀ name, url.host = some (.domain name) → name.map Char.toLower = name) :
    isLoopbackHost url = true ↔ url.OnLoopback := by
  rw [isLoopbackHost, Url.OnLoopback]
  cases hhost : url.host with
  | none => simp
  | some host =>
    cases host with
    | domain name => simp [Host.isLoopback, hlower name hhost, text]
    | ipv4 a => simp
    | ipv6 a => simp

theorem isLoopbackHostname_of_onLoopback {url : Url} (h : url.OnLoopback) :
    Sdk.isLoopbackHostname url.hostname = true := by
  obtain ⟨host, hhost, hloopback⟩ := h
  rw [Url.hostname, hhost, Option.map_some, Option.getD_some, Sdk.isLoopbackHostname]
  rcases hloopback with rfl | hloopback
  · decide
  cases host with
  | domain name => cases hloopback
  | ipv4 a =>
    simp [Host.serialize, isDotted127_ipv4Text.mpr (decide_eq_true_eq.mp hloopback)]
  | ipv6 a =>
    obtain rfl : a = 1 := Fin.ext (decide_eq_true_eq.mp hloopback)
    simp only [Bool.or_eq_true, decide_eq_true_eq]
    exact Or.inr (by decide)

/-- The SDK asks whether the host name is `localhost`, a name under it, or a loopback address. -/
theorem isLoopbackHostname_iff {url : Url} (hsome : url.host.isSome = true)
    (hdomain : ∀ name, url.host = some (.domain name) → Host.StandardDomain name) :
    Sdk.isLoopbackHostname url.hostname = true ↔ url.OnLoopback ∨ url.UnderLocalhost := by
  obtain ⟨host, hhost⟩ := Option.isSome_iff_exists.mp hsome
  rw [Url.hostname, hhost, Option.map_some, Option.getD_some, Sdk.isLoopbackHostname,
    Url.OnLoopback, Url.UnderLocalhost, hhost]
  cases host with
  | domain name =>
    obtain ⟨-, -, hbracket, hnumber⟩ := hdomain name hhost
    have hipv6 : name ≠ text "[::1]" := by rintro rfl; exact hbracket (by decide)
    have hsuffix : (text ".localhost").isSuffixOf name = true ↔
        ∃ front, front ++ text ".localhost" = name := List.isSuffixOf_iff_suffix
    simp only [Host.serialize, not_isDotted127_domain hnumber, hipv6, Host.isLoopback,
      Bool.or_eq_true, hsuffix, Bool.or_false, decide_false, Option.some.injEq, exists_eq_left',
      Host.domain.injEq, Bool.false_eq_true, or_false]
    exact or_congr decide_eq_true_iff (exists_congr fun _ => eq_comm)
  | ipv4 a =>
    have hlast : (text ".localhost").isSuffixOf (Host.ipv4Text a) ≠ true := by
      intro h
      rcases Host.mem_ipv4Text (List.mem_of_getLast? (getLast?_of_isSuffixOf h)) with h | h
      · exact absurd h (by decide)
      · exact absurd h (by decide)
    have hname : ∀ t, 't' ∈ t ∨ '[' ∈ t → Host.ipv4Text a ≠ t := by
      rintro t (h | h) rfl
      · rcases Host.mem_ipv4Text h with h | h
        · exact absurd h (by decide)
        · exact absurd h (by decide)
      · rcases Host.mem_ipv4Text h with h | h
        · exact absurd h (by decide)
        · exact absurd h (by decide)
    have hlocal := hname (text "localhost") (Or.inl (by decide))
    have hipv6 := hname (text "[::1]") (Or.inr (by decide))
    simp [Host.serialize, Host.isLoopback, hlast, hlocal, hipv6, isDotted127_ipv4Text]
  | ipv6 a =>
    have hdotted : Sdk.isDotted127 ('[' :: (Host.ipv6Text a ++ [']'])) ≠ true := fun h =>
      absurd (Option.some.inj (head?_of_isDotted127 h)) (by decide)
    have hlast : (text ".localhost").isSuffixOf ('[' :: (Host.ipv6Text a ++ [']'])) ≠ true := by
      intro h
      have htail := getLast?_of_isSuffixOf h
      rw [← List.cons_append, List.getLast?_append] at htail
      exact absurd (Option.some.inj htail) (by decide)
    have hlocal : '[' :: (Host.ipv6Text a ++ [']']) ≠ text "localhost" := fun h =>
      absurd (List.cons.inj h).1 (by decide)
    have hloop : '[' :: (Host.ipv6Text a ++ [']']) = text "[::1]" ↔ a.val = 1 := by
      rw [← Host.ipv6Text_eq_loopback a.isLt]
      have htext : text "[::1]" = '[' :: ("::1".toList ++ [']']) := rfl
      rw [htext, List.cons.injEq, and_iff_right rfl, List.append_left_inj]
    simp [Host.serialize, Host.isLoopback, hlast, hlocal, hdotted, hloop]

/-! ### The two policies -/

theorem isWeb_iff {url : Url} :
    url.isWeb = true ↔ url.scheme = text "https" ∨ url.scheme = text "http" := by
  rw [Url.isWeb, Bool.or_eq_true, decide_eq_true_eq, decide_eq_true_eq]
  exact or_comm

section
variable {parseUrl : Text → Option Url} (hweb : Url.WebHosts parseUrl) {t : Text} {url : Url}
  (hparse : parseUrl t = some url)
include hweb hparse

/-- `soul-core` takes HTTPS, and HTTP on a loopback host. -/
theorem core_urlAllowed_iff : ProofDescriptor.urlAllowed url = true ↔
    url.scheme = text "https" ∨ url.scheme = text "http" ∧ url.OnLoopback := by
  have hne : text "https" ≠ text "http" := by decide
  simp only [ProofDescriptor.urlAllowed, Bool.and_eq_true, Bool.or_eq_true, decide_eq_true_eq,
    Bool.not_eq_true', Bool.and_eq_false_iff, decide_eq_false_iff_not, Bool.not_eq_false']
  by_cases hscheme : url.scheme = text "https" ∨ url.scheme = text "http"
  · have hisWeb := isWeb_iff.mpr hscheme
    have hlower : ∀ name, url.host = some (.domain name) → name.map Char.toLower = name :=
      fun name hname => (hweb.domain hparse hisWeb hname).2.1
    rw [isLoopbackHost_iff hlower, hweb.host hparse hisWeb]
    rcases hscheme with h | h
    · simp [h, hne]
    · simp [h, hne.symm]
  · rw [not_or] at hscheme
    simp [hscheme]

/-- The SDK takes HTTPS, and HTTP on a loopback host or a name under `localhost`, if the URL has no
    credentials and no fragment. -/
theorem sdk_urlAllowed_iff : Sdk.urlAllowed url = true ↔ ¬ url.Decorated ∧
    (url.scheme = text "https" ∨
      url.scheme = text "http" ∧ (url.OnLoopback ∨ url.UnderLocalhost)) := by
  have hprotocol : ∀ scheme : Text, url.protocol = scheme ++ [':'] ↔ url.scheme = scheme :=
    fun scheme => List.append_left_inj _
  have hhttps : text "https:" = text "https" ++ [':'] := rfl
  have hhttp : text "http:" = text "http" ++ [':'] := rfl
  simp only [Sdk.urlAllowed, Bool.and_eq_true, Bool.or_eq_true, decide_eq_true_eq, hhttps, hhttp,
    hprotocol, Url.Decorated, not_or, not_not, and_assoc]
  by_cases hscheme : url.scheme = text "https" ∨ url.scheme = text "http"
  · have hisWeb := isWeb_iff.mpr hscheme
    have hdomain : ∀ name, url.host = some (.domain name) → Host.StandardDomain name :=
      fun name => hweb.domain hparse hisWeb
    have hsome := hweb.host hparse hisWeb
    rw [isLoopbackHostname_iff hsome hdomain,
      and_iff_right (hostname_ne_nil (fun name hname => (hdomain name hname).1) hsome)]
  · rw [not_or] at hscheme
    simp [hscheme]

end

end SoulSociety.Protocol
