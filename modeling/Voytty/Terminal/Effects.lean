import Voytty.Lib.Text

/-!
# Transient host effects

Clipboard writes and notifications (`core/src/terminal.rs`,
`core/src/terminal/notifications.rs`). Both carry their validity, so a value
that was not validated cannot be built. Pending effects keep the latest
clipboard write and the last 32 notifications.
-/

namespace Voytty.Terminal

open Voytty.Lib

def maxTerminalClipboardBytes : Nat := 512 * 1024

inductive TerminalClipboardError where
  | empty
  | tooLarge
  | containsNul
  deriving DecidableEq, Repr

structure TerminalClipboardWrite where
  text : List Char
  nonempty : text ≠ []
  bounded : byteLen text ≤ maxTerminalClipboardBytes
  noNul : Char.ofNat 0 ∉ text
  deriving DecidableEq

def TerminalClipboardWrite.new (text : List Char) :
    Except TerminalClipboardError TerminalClipboardWrite :=
  if h : text = [] then .error .empty
  else if h' : byteLen text > maxTerminalClipboardBytes then .error .tooLarge
  else if h'' : Char.ofNat 0 ∈ text then .error .containsNul
  else .ok ⟨text, h, by omega, h''⟩

def maxTerminalNotificationBytes : Nat := 1024

def maxPendingTerminalNotifications : Nat := 32

inductive TerminalNotificationError where
  | empty
  | tooLarge
  | control
  | subcommand
  | titleDelimiter
  deriving DecidableEq, Repr

/-- Bytes of the canonical OSC body around a notification's texts. -/
def notificationOverhead (title : Option (List Char)) : Nat := if title.isSome then 12 else 2

/-- An OSC 9 message (no title) or an OSC 777 title and body. -/
structure TerminalNotification where
  title : Option (List Char)
  body : List Char
  nonempty : title.getD [] ≠ [] ∨ body ≠ []
  bounded : byteLen (title.getD []) + byteLen body + notificationOverhead title ≤
    maxTerminalNotificationBytes
  printable : (title.getD [] ++ body).any isControl = false
  deriving DecidableEq

namespace TerminalNotification

def validated (title : Option (List Char)) (body : List Char) :
    Except TerminalNotificationError TerminalNotification :=
  if h : title.getD [] = [] ∧ body = [] then .error .empty
  else if h' : byteLen (title.getD []) + byteLen body + notificationOverhead title >
      maxTerminalNotificationBytes then .error .tooLarge
  else if h'' : (title.getD [] ++ body).any isControl = true then .error .control
  else .ok ⟨title, body, by tauto, by omega, by simpa using h''⟩

/-- The reserved numeric subcommands of OSC 9. -/
def isSubcommand (message : List Char) : Bool :=
  message == ['4'] ||
    match splitOnce ';' message with
    | some (before, _) => !before.isEmpty && before.all Char.isDigit
    | none => false

def osc9 (message : List Char) : Except TerminalNotificationError TerminalNotification :=
  if isSubcommand message then .error .subcommand else validated none message

def osc777 (title body : List Char) : Except TerminalNotificationError TerminalNotification :=
  if ';' ∈ title then .error .titleDelimiter else validated (some title) body

end TerminalNotification

inductive TerminalHostEffect where
  | clipboardWrite (write : TerminalClipboardWrite)
  | notification (notification : TerminalNotification)
  deriving DecidableEq

/-- Pending effects: the latest clipboard write and a bounded notification queue. -/
structure TerminalHostEffects where
  clipboard : Option TerminalClipboardWrite := none
  notifications : List TerminalNotification := []
  deriving DecidableEq

namespace TerminalHostEffects

/-- Appends to the queue, discarding the oldest at the bound. -/
def pushNotification (queue : List TerminalNotification) (n : TerminalNotification) :
    List TerminalNotification :=
  (if queue.length = maxPendingTerminalNotifications then queue.tail else queue) ++ [n]

def push (e : TerminalHostEffects) : TerminalHostEffect → TerminalHostEffects
  | .clipboardWrite write => { e with clipboard := some write }
  | .notification n => { e with notifications := pushNotification e.notifications n }

def pop (e : TerminalHostEffects) : Option TerminalHostEffect × TerminalHostEffects :=
  match e.clipboard, e.notifications with
  | some write, _ => (some (.clipboardWrite write), { e with clipboard := none })
  | none, n :: rest => (some (.notification n), { e with notifications := rest })
  | none, [] => (none, e)

def isEmpty (e : TerminalHostEffects) : Bool := e.clipboard.isNone && e.notifications.isEmpty

end TerminalHostEffects

end Voytty.Terminal
