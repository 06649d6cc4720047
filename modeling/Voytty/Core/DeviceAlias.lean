import Voytty.Core.Pairing
import Voytty.Lib.Text

/-!
# Device aliases

The user's own name for a paired device (`core/src/device.rs`). An alias is
validated when it is made, and the one derived from a remote name and the
device's identity is valid whatever the remote name (`disambiguated`).
-/

namespace Voytty.Pairing

open Voytty.Lib

def maxDeviceAliasBytes : Nat := 128

def reservedDeviceAlias : List Char := "local".toList

/-- `char::is_whitespace`: the Unicode property White_Space. -/
def isWhitespace (c : Char) : Bool :=
  (0x9 ≤ c.toNat && c.toNat ≤ 0xd) || c.toNat = 0x20 || c.toNat = 0x85 || c.toNat = 0xa0 ||
    c.toNat = 0x1680 || (0x2000 ≤ c.toNat && c.toNat ≤ 0x200a) || c.toNat = 0x2028 ||
    c.toNat = 0x2029 || c.toNat = 0x202f || c.toNat = 0x205f || c.toNat = 0x3000

def trim (text : List Char) : List Char := (text.dropWhile isWhitespace).rdropWhile isWhitespace

inductive DeviceAliasError where
  | empty
  | tooLong (actual maximum : Nat)
  | surroundingWhitespace
  | controlCharacter
  | reserved
  deriving DecidableEq, Repr

def validateAlias (value : List Char) : Except DeviceAliasError Unit :=
  if value = [] then .error .empty
  else if byteLen value > maxDeviceAliasBytes then
    .error (.tooLong (byteLen value) maxDeviceAliasBytes)
  else if trim value ≠ value then .error .surroundingWhitespace
  else if value.any isControl then .error .controlCharacter
  else if value = reservedDeviceAlias then .error .reserved
  else .ok ()

structure DeviceAlias where
  value : List Char
  valid : validateAlias value = .ok ()
  deriving DecidableEq

theorem validateAlias_ok {value : List Char} : validateAlias value = .ok () ↔
    value ≠ [] ∧ byteLen value ≤ maxDeviceAliasBytes ∧ trim value = value ∧
      value.any isControl = false ∧ value ≠ reservedDeviceAlias := by
  unfold validateAlias
  split
  · simp_all
  split
  · rename_i hlong
    simp [Nat.not_le.2 hlong]
  split
  · simp_all
  split
  · simp_all
  split
  · simp_all
  · simp_all

namespace DeviceAlias

def new (value : List Char) : Except DeviceAliasError DeviceAlias :=
  match h : validateAlias value with
  | .ok () => .ok ⟨value, h⟩
  | .error error => .error error

def fromRemoteName (remoteName : List Char) : Option DeviceAlias :=
  if h : validateAlias remoteName = .ok () then some ⟨remoteName, h⟩ else none

theorem bounded (a : DeviceAlias) : byteLen a.value ≤ maxDeviceAliasBytes :=
  (validateAlias_ok.1 a.valid).2.1

end DeviceAlias

/-! ## The fallback -/

def aliasSuffixIdBytes : Nat := 4

def shortEndpointId (deviceId : DeviceId) : List Char :=
  (deviceId.toList.take aliasSuffixIdBytes).flatMap fun byte => hexPad false 2 byte.toNat

def shortIdSuffix (deviceId : DeviceId) : List Char := '-' :: shortEndpointId deviceId

/-- Characters up to the first control character, as long as they fit. -/
def fitting (budget : Nat) : Nat → List Char → List Char
  | _, [] => []
  | used, c :: rest =>
    if isControl c then []
    else if used + c.utf8Size > budget then []
    else c :: fitting budget (used + c.utf8Size) rest

def disambiguatedText (remoteName : List Char) (deviceId : DeviceId) : List Char :=
  let suffix := shortIdSuffix deviceId
  fitting (maxDeviceAliasBytes - byteLen suffix) 0 (trim remoteName) ++ suffix

theorem fitting_bounded {budget used : Nat} (hused : used ≤ budget) (text : List Char) :
    used + byteLen (fitting budget used text) ≤ budget := by
  induction text generalizing used with
  | nil => exact hused
  | cons c rest ih =>
    unfold fitting
    split
    · exact hused
    split
    · exact hused
    · have hfits : used + c.utf8Size ≤ budget := by omega
      have hrest := ih hfits
      rw [byteLen_cons]
      omega

theorem fitting_initial (budget used : Nat) (text : List Char) :
    fitting budget used text <+: text := by
  induction text generalizing used with
  | nil => exact List.prefix_refl _
  | cons c rest ih =>
    unfold fitting
    split
    · exact List.nil_prefix
    split
    · exact List.nil_prefix
    · exact (List.prefix_cons_inj c).2 (ih _)

theorem fitting_printable (budget used : Nat) (text : List Char) :
    (fitting budget used text).any isControl = false := by
  induction text generalizing used with
  | nil => rfl
  | cons c rest ih =>
    unfold fitting
    split
    · rfl
    split
    · rfl
    · rename_i hc _
      rw [List.any_cons, ih, Bool.or_false]
      simpa using hc

theorem hexDigit_plain {n : Nat} (h : n < 16) :
    isControl (hexDigit false n) = false ∧ isWhitespace (hexDigit false n) = false ∧
      (hexDigit false n).toNat < 0x80 := by
  have hall : ∀ n < 16, isControl (hexDigit false n) = false ∧
      isWhitespace (hexDigit false n) = false ∧ (hexDigit false n).toNat < 0x80 := by decide
  exact hall n h

theorem hexPad_two (byte : UInt8) :
    hexPad false 2 byte.toNat =
      [hexDigit false (byte.toNat / 16 % 16), hexDigit false (byte.toNat % 16)] := rfl

theorem shortEndpointId_plain (deviceId : DeviceId) : ∀ c ∈ shortEndpointId deviceId,
    isControl c = false ∧ isWhitespace c = false ∧ c.toNat < 0x80 := by
  intro c hc
  obtain ⟨byte, -, hbyte⟩ := List.mem_flatMap.1 hc
  rw [hexPad_two] at hbyte
  rcases List.mem_cons.1 hbyte with rfl | hbyte
  · exact hexDigit_plain (Nat.mod_lt _ (by decide))
  · rw [List.mem_singleton.1 hbyte]
    exact hexDigit_plain (Nat.mod_lt _ (by decide))

theorem shortEndpointId_length (deviceId : DeviceId) : (shortEndpointId deviceId).length = 8 := by
  have hfour : (deviceId.toList.take aliasSuffixIdBytes).length = 4 := by
    rw [List.length_take, Vector.length_toList]
    rfl
  rw [shortEndpointId, List.length_flatMap]
  simp only [hexPad_two, List.length_cons, List.length_nil, List.map_const', List.sum_replicate,
    hfour]
  rfl

theorem shortIdSuffix_byteLen (deviceId : DeviceId) : byteLen (shortIdSuffix deviceId) = 9 := by
  rw [shortIdSuffix, byteLen_cons,
    byteLen_ascii fun c hc => (shortEndpointId_plain deviceId c hc).2.2,
    shortEndpointId_length]
  rfl

theorem trim_eq_self {text : List Char} (hhead : ∀ c, text.head? = some c → isWhitespace c = false)
    (hlast : ∀ c, text.getLast? = some c → isWhitespace c = false) : trim text = text := by
  have hleft : text.dropWhile isWhitespace = text := by
    cases text with
    | nil => rfl
    | cons c rest => rw [List.dropWhile_cons_of_neg (by simp [hhead c rfl])]
  rw [trim, hleft, List.rdropWhile_eq_self_iff]
  intro hne
  rw [hlast _ (List.getLast?_eq_some_getLast hne)]
  exact Bool.false_ne_true

theorem trim_head {text : List Char} {c : Char} (h : (trim text).head? = some c) :
    isWhitespace c = false := by
  have hprefix : trim text <+: text.dropWhile isWhitespace := List.rdropWhile_prefix _ _
  obtain ⟨rest, hrest⟩ := hprefix
  cases htrim : trim text with
  | nil => rw [htrim] at h; cases h
  | cons d tail =>
    rw [htrim] at h hrest
    cases h
    have hhead := List.head?_dropWhile_not isWhitespace text
    rw [← hrest] at hhead
    simpa using hhead

/-- Trimmed, cut to size and given the suffix, any name is a valid alias. -/
theorem disambiguatedText_valid (remoteName : List Char) (deviceId : DeviceId) :
    validateAlias (disambiguatedText remoteName deviceId) = .ok () := by
  have hsuffix := shortIdSuffix_byteLen deviceId
  have hplain := shortEndpointId_plain deviceId
  have hlength := shortEndpointId_length deviceId
  unfold disambiguatedText
  dsimp only
  set front := fitting (maxDeviceAliasBytes - byteLen (shortIdSuffix deviceId)) 0 (trim remoteName)
    with hfront
  rw [validateAlias_ok]
  refine ⟨?_, ?_, trim_eq_self ?_ ?_, ?_, ?_⟩
  · simp [shortIdSuffix]
  · have hfit := fitting_bounded
      (Nat.zero_le (maxDeviceAliasBytes - byteLen (shortIdSuffix deviceId))) (trim remoteName)
    rw [← hfront, hsuffix] at hfit
    rw [byteLen_append, hsuffix]
    simp only [maxDeviceAliasBytes] at hfit ⊢
    omega
  · intro c hc
    cases hempty : front with
    | nil =>
      rw [hempty] at hc
      cases hc
      decide
    | cons d rest =>
      rw [hempty] at hc
      cases hc
      obtain ⟨more, hmore⟩ := fitting_initial
        (maxDeviceAliasBytes - byteLen (shortIdSuffix deviceId)) 0 (trim remoteName)
      rw [← hfront, hempty] at hmore
      exact trim_head (by rw [← hmore]; rfl)
  · intro c hc
    rw [List.getLast?_append_of_ne_nil _ (by simp [shortIdSuffix]), shortIdSuffix,
      List.getLast?_cons] at hc
    have hne : shortEndpointId deviceId ≠ [] := by
      intro hnil
      rw [hnil] at hlength
      cases hlength
    rw [List.getLast?_eq_some_getLast hne] at hc
    cases hc
    exact (hplain _ (List.getLast_mem hne)).2.1
  · rw [List.any_append, fitting_printable, Bool.false_or, shortIdSuffix, List.any_cons]
    refine Bool.or_eq_false_iff.2 ⟨by decide, ?_⟩
    rw [List.any_eq_false]
    intro c hc
    rw [(hplain c hc).1]
    exact Bool.false_ne_true
  · intro hlocal
    have hdash : '-' ∈ reservedDeviceAlias := by
      rw [← hlocal]
      simp [shortIdSuffix]
    exact absurd hdash (by decide)

def DeviceAlias.disambiguated (remoteName : List Char) (deviceId : DeviceId) : DeviceAlias :=
  ⟨disambiguatedText remoteName deviceId, disambiguatedText_valid remoteName deviceId⟩

end Voytty.Pairing
