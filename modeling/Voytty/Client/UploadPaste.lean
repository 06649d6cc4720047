import Voytty.Core.Domain
import Voytty.Terminal.Surface

/-!
# Pasting an uploaded file's path

The host names the file it published, and the client pastes that path into the
session: `UploadedFile.new` (`core/src/upload.rs`) checks it and `pasteBytes`
(`client/src/upload.rs`) quotes it. `posixWord` and `powerShellWord` are the two
shells' own rules, for the texts they read as one literal word.
-/

namespace Voytty.Client

open Voytty.Lib Voytty.Terminal

/-! ## Paths -/

def maxUploadBytes : Nat := 50000000

def maxUploadPathBytes : Nat := 1024

/-- `path.get(1..3) == Some(":/")`: the slice exists after a character of one byte. -/
def atDrive : List Char → Bool
  | c :: ':' :: '/' :: _ => c.utf8Size == 1
  | _ => false

def isUnixPath (path : List Char) : Bool :=
  "/tmp/voytty-".toList.isPrefixOf path &&
    path.all fun c => c.isAlphanum || "/._-".toList.contains c

def isWindowsPath (path : List Char) : Bool :=
  path.head?.any Char.isAlpha && atDrive path &&
    path.tails.any ("/voytty-upload-S-1-".toList.isPrefixOf ·) &&
    (path.drop 3).all fun c => !isControl c && !"'\"`$;&|<>*?:\\".toList.contains c

def escapes (path : List Char) : Bool :=
  ((path.splitOn '/').drop 1).any fun part => part == [] || part == ['.'] || part == ['.', '.']

/-- What the checks of `UploadedFile::new` refuse. -/
def refused (path : List Char) (size : Nat) : Bool :=
  size > maxUploadBytes || byteLen path > maxUploadPathBytes ||
    !(isUnixPath path || isWindowsPath path) || escapes path

/-- Successful publication, validated before any terminal paste. -/
structure UploadedFile where
  path : List Char
  size : Nat
  accepted : refused path size = false

def UploadedFile.new (path : List Char) (size : Nat) : Except DomainErrorKind UploadedFile :=
  if h : refused path size = false then .ok ⟨path, size, h⟩ else .error .malformedFrame

theorem UploadedFile.form (file : UploadedFile) :
    isUnixPath file.path = true ∨ isWindowsPath file.path = true := by
  have h := file.accepted
  simp only [refused, Bool.or_eq_false_iff, Bool.not_eq_false', Bool.or_eq_true] at h
  exact h.1.2

def pasteStart : List UInt8 := [0x1b, 0x5b, 0x32, 0x30, 0x30, 0x7e]

def pasteEnd : List UInt8 := [0x1b, 0x5b, 0x32, 0x30, 0x31, 0x7e]

/-- The text that is pasted, quoted for PowerShell in the drive form. -/
def pasteText (path : List Char) : List Char :=
  if atDrive path then '\'' :: path ++ ['\''] else path

def pasteBytes (file : UploadedFile) (modes : TerminalModes) : List UInt8 :=
  if modes.bracketedPaste then pasteStart ++ encode (pasteText file.path) ++ pasteEnd
  else encode (pasteText file.path)

/-! ## Shells -/

/-- What a POSIX shell does not take literally in an unquoted word: operators, blanks, quotes, and
what starts an expansion, a pattern, an assignment or a comment. -/
def posixSpecial (c : Char) : Bool :=
  isControl c || "|&;<>()$`\\\"' *?[]\x7b\x7d~#=%!^,".toList.contains c

/-- An unquoted text that a POSIX shell reads as one word, as it is written. -/
def posixWord (text : List Char) : Option (List Char) :=
  if text ≠ [] ∧ text.all (!posixSpecial ·) then some text else none

/-- PowerShell takes the typographic single quotes for apostrophes. -/
def curlyQuote (c : Char) : Bool := 0x2018 ≤ c.toNat && c.toNat ≤ 0x201b

def singleQuote (c : Char) : Bool := c == '\'' || curlyQuote c

/-- The rest of a single-quoted word and what follows its closing quote. Two quotes in a row are
one that is part of the word. -/
def quotedWord : List Char → Option (List Char × List Char)
  | [] => none
  | c :: rest =>
    if singleQuote c then
      match rest with
      | d :: rest' =>
        if singleQuote d then (quotedWord rest').map fun w => (d :: w.1, w.2) else some ([], rest)
      | [] => some ([], [])
    else (quotedWord rest).map fun w => (c :: w.1, w.2)

/-- A text that PowerShell reads as one single-quoted word. -/
def powerShellWord : List Char → Option (List Char)
  | c :: rest =>
    if singleQuote c then
      match quotedWord rest with
      | some (word, []) => some word
      | _ => none
    else none
  | [] => none

theorem quotedWord_length {text word rest : List Char} (h : quotedWord text = some (word, rest)) :
    word.length < text.length := by
  fun_induction quotedWord text generalizing word rest with
  | case1 => cases h
  | case2 c _ d tail _ ih =>
    obtain ⟨⟨w, r⟩, hw, hpair⟩ := Option.map_eq_some_iff.mp h
    obtain ⟨rfl, -⟩ := Prod.mk.inj hpair
    have := ih hw
    simp only [List.length_cons]
    omega
  | case3 | case4 =>
    obtain ⟨rfl, -⟩ := Prod.mk.inj (Option.some.inj h)
    simp
  | case5 c tail _ ih =>
    obtain ⟨⟨w, r⟩, hw, hpair⟩ := Option.map_eq_some_iff.mp h
    obtain ⟨rfl, -⟩ := Prod.mk.inj hpair
    simpa using ih hw

/-- The scan passes over what is not a quote and stops at one that no other follows; a quote of the
word ends it, or is read as one with the quote that follows. -/
theorem quotedWord_append {word : List Char} :
    quotedWord (word ++ ['\'']) = some (word, []) ↔ ∀ c ∈ word, singleQuote c = false := by
  induction word with
  | nil => simp [quotedWord, singleQuote]
  | cons c word ih =>
    rw [List.cons_append, quotedWord.eq_def, List.forall_mem_cons, ← ih]
    cases hc : singleQuote c with
    | false => simp [hc]
    | true =>
      obtain ⟨d, tail, htail⟩ := List.exists_cons_of_ne_nil (List.append_ne_nil_of_right_ne_nil word
        (List.cons_ne_nil '\'' []))
      simp only [hc, htail, if_true]
      refine iff_of_false (fun hread => ?_) (by simp)
      split at hread
      · obtain ⟨⟨w, r⟩, hw, hpair⟩ := Option.map_eq_some_iff.mp hread
        obtain ⟨-, rfl⟩ := List.cons.inj (Prod.mk.inj hpair).1
        have hshort := quotedWord_length hw
        have hlength := congrArg List.length htail
        simp only [List.length_append, List.length_cons, List.length_nil] at hlength
        omega
      · cases (Prod.mk.inj (Option.some.inj hread)).1

/-! ## One literal word -/

/-- The unquoted form holds ASCII characters only, and none that means something to a shell. -/
theorem plain_literal {c : Char} (h : (c.isAlphanum || "/._-".toList.contains c) = true) :
    posixSpecial c = false := by
  have hascii : c.toNat < 128 := by
    rcases Bool.or_eq_true_iff.mp h with h | h
    · simp only [Char.isAlphanum, Char.isAlpha, Char.isUpper, Char.isLower, Char.isDigit,
        Bool.or_eq_true, Bool.and_eq_true, decide_eq_true_eq, UInt32.le_iff_toNat_le, ge_iff_le] at h
      change ((65 ≤ c.toNat ∧ c.toNat ≤ 90) ∨ 97 ≤ c.toNat ∧ c.toNat ≤ 122) ∨
        48 ≤ c.toNat ∧ c.toNat ≤ 57 at h
      omega
    · have hall : ("/._-".toList.all fun d => d.toNat < 128) = true := by decide +kernel
      exact of_decide_eq_true (List.all_eq_true.mp hall c (List.contains_iff_mem.mp h))
  have hcheck : ∀ n < 128, ((Char.ofNat n).isAlphanum || "/._-".toList.contains (Char.ofNat n)) →
      posixSpecial (Char.ofNat n) = false := by decide +kernel
  have := hcheck c.toNat hascii
  rw [Char.ofNat_toNat] at this
  exact this h

theorem isUnixPath_read {path : List Char} (h : isUnixPath path = true) :
    atDrive path = false ∧ posixWord path = some path ∧ ∀ c ∈ path, isControl c = false := by
  obtain ⟨hstart, hchars⟩ := Bool.and_eq_true_iff.mp h
  have hplain : ∀ c ∈ path, posixSpecial c = false := fun c hc =>
    plain_literal (List.all_eq_true.mp hchars c hc)
  obtain ⟨rest, rfl⟩ := List.isPrefixOf_iff_prefix.mp hstart
  refine ⟨rfl, if_pos ⟨nofun, List.all_eq_true.mpr fun c hc => ?_⟩, fun c hc => ?_⟩
  · exact (Bool.or_eq_false_iff.mp (hplain c hc)).1
  · rw [hplain c hc]
    rfl

theorem isWindowsPath_read {path : List Char} (h : isWindowsPath path = true) :
    atDrive path = true ∧ ∀ c ∈ path, isControl c = false ∧ c ≠ '\'' := by
  simp only [isWindowsPath, Bool.and_eq_true, List.all_eq_true] at h
  obtain ⟨⟨⟨hletter, hdrive⟩, -⟩, hrest⟩ := h
  refine ⟨hdrive, fun c hc => ?_⟩
  unfold atDrive at hdrive
  split at hdrive
  · rename_i d rest
    simp only [List.mem_cons] at hc
    rcases hc with rfl | rfl | rfl | hc
    · -- a letter, which the unquoted form would take too
      have hplain := plain_literal (c := c) (by simp [Char.isAlphanum, show c.isAlpha from hletter])
      refine ⟨(Bool.or_eq_false_iff.mp hplain).1, ?_⟩
      rintro rfl
      cases hletter
    · decide
    · decide
    · obtain ⟨hcontrol, hnot⟩ := hrest c hc
      refine ⟨by simpa using hcontrol, ?_⟩
      rintro rfl
      cases hnot
  · cases hdrive

/-- What is pasted for an accepted path holds no control character, and its shell reads one literal
word, the path: a POSIX shell the unquoted form, and PowerShell the quoted one exactly when the path
holds no typographic quote. -/
theorem pasted_path_is_one_word (file : UploadedFile) (modes : TerminalModes) :
    (∃ text, pasteBytes file modes = (if modes.bracketedPaste then pasteStart else []) ++
        encode text ++ (if modes.bracketedPaste then pasteEnd else []) ∧
      (∀ c ∈ text, isControl c = false) ∧
      (isUnixPath file.path = true → posixWord text = some file.path) ∧
      (isWindowsPath file.path = true →
        (powerShellWord text = some file.path ↔ ∀ c ∈ file.path, curlyQuote c = false))) ∧
    (isUnixPath file.path = true ∨ isWindowsPath file.path = true) := by
  refine ⟨⟨pasteText file.path, ?_, ?_⟩, file.form⟩
  · unfold pasteBytes
    split <;> simp
  rcases file.form with hunix | hwindows
  · obtain ⟨hdrive, hword, hcontrol⟩ := isUnixPath_read hunix
    rw [pasteText, hdrive]
    refine ⟨hcontrol, fun _ => hword, fun h => ?_⟩
    rw [(isWindowsPath_read h).1] at hdrive
    cases hdrive
  · obtain ⟨hdrive, hchars⟩ := isWindowsPath_read hwindows
    rw [pasteText, if_pos hdrive]
    refine ⟨fun c hc => ?_, fun h => ?_, fun _ => ?_⟩
    · simp only [List.cons_append, List.mem_cons, List.mem_append, List.not_mem_nil, or_false] at hc
      rcases hc with rfl | hc | rfl
      · decide
      · exact (hchars c hc).1
      · decide
    · rw [(isUnixPath_read h).1] at hdrive
      cases hdrive
    · have hquotes : (∀ c ∈ file.path, singleQuote c = false) ↔
          ∀ c ∈ file.path, curlyQuote c = false := forall₂_congr fun c hc => by
        simp [singleQuote, (hchars c hc).2]
      rw [← hquotes, ← quotedWord_append, List.cons_append]
      change (match quotedWord (file.path ++ ['\'']) with
        | some (word, []) => some word
        | _ => none) = some file.path ↔ _
      split <;> simp_all

/-- A right single quotation mark ends the word, and PowerShell runs what follows it. -/
theorem pasted_path_leaves_quotes :
    let path := "C:/x\u2019+(calc)+\u2018/voytty-upload-S-1-5/f".toList
    (∃ file, UploadedFile.new path 0 = .ok file) ∧ isWindowsPath path = true ∧
      quotedWord ((pasteText path).drop 1) =
        some ("C:/x".toList, "+(calc)+\u2018/voytty-upload-S-1-5/f'".toList) ∧
      powerShellWord (pasteText path) = none := by
  refine ⟨⟨_, dif_pos ?_⟩, ?_⟩
  · decide +kernel
  · decide +kernel

end Voytty.Client
