import Voytty.Lib.Dictionary
import Voytty.Terminal.Acceptance
import Voytty.Terminal.LinkTable

/-!
# Rows on the wire

`proto/src/terminal_links.rs` with the style conversions of `proto/src/lib.rs`: the
rows of a message and the dictionary of the links their cells refer to. The client
checks the dictionary again; what a host publishes always passes and is read back
unchanged.
-/

namespace Voytty.Proto

open Voytty.Lib Voytty.Terminal

/-- `ProtocolError::InvalidTerminalSemanticField`. -/
structure InvalidTerminalSemanticField where
  field : String
  deriving DecidableEq, Repr

abbrev Decoded := Except InvalidTerminalSemanticField

def okOr {α : Type} (field : String) : Option α → Decoded α
  | some a => .ok a
  | none => .error ⟨field⟩

def tryU8 (field : String) (n : Nat) : Decoded UInt8 :=
  okOr field (if n < 2 ^ 8 then some (UInt8.ofNat n) else none)

section

variable {α β : Type} {field : String}

@[simp] theorem okOr_some (a : α) : okOr field (some a) = .ok a := rfl

@[simp] theorem ok_bind (a : α) (f : α → Decoded β) : (Except.ok a >>= f) = f a := rfl

@[simp] theorem tryU8_toNat (b : UInt8) : tryU8 field b.toNat = .ok b := by
  simp [tryU8, b.toNat_lt]

end

/-! ## Messages -/

namespace V2

structure TerminalRgbColor where
  (red green blue : Nat)

inductive ColorValue where
  | defaultColor (set : Bool)
  | indexed (index : Nat)
  | rgb (color : TerminalRgbColor)

structure TerminalColor where
  value : Option ColorValue

structure TerminalStyle where
  (foreground background underlineColor : Option TerminalColor)
  (bold dim italic inverse strike conceal : Bool)
  underline : Nat

structure TerminalHyperlink where
  (id uri : List Char)

structure TerminalCell where
  hyperlink : Nat
  contents : List Char
  (wide wideContinuation : Bool)
  style : Option TerminalStyle

structure TerminalSurfaceRow where
  cells : List TerminalCell
  wrapped : Bool

def TerminalColor.of : Terminal.TerminalColor → TerminalColor
  | .default => ⟨some (.defaultColor true)⟩
  | .indexed index => ⟨some (.indexed index.toNat)⟩
  | .rgb red green blue => ⟨some (.rgb ⟨red.toNat, green.toNat, blue.toNat⟩)⟩

def TerminalColor.tryInto (c : TerminalColor) : Decoded Terminal.TerminalColor :=
  match c.value with
  | some (.defaultColor true) => .ok .default
  | some (.defaultColor false) | none => .error ⟨"terminal_color"⟩
  | some (.indexed index) => return .indexed (← tryU8 "indexed_color" index)
  | some (.rgb c) =>
    return .rgb (← tryU8 "rgb_red" c.red) (← tryU8 "rgb_green" c.green) (← tryU8 "rgb_blue" c.blue)

@[simp] theorem TerminalColor.tryInto_of (c : Terminal.TerminalColor) : (of c).tryInto = .ok c := by
  cases c <;> simp [of, tryInto]

def underlines : List TerminalUnderline := [.none, .single, .double, .curly, .dotted, .dashed]

def TerminalStyle.of (s : Terminal.TerminalStyle) : TerminalStyle :=
  { s with
    foreground := some (.of s.foreground)
    background := some (.of s.background)
    underlineColor := some (.of s.underlineColor)
    underline := underlines.idxOf s.underline }

def TerminalStyle.tryInto (s : TerminalStyle) : Decoded Terminal.TerminalStyle := do
  let foreground ← (← okOr "foreground" s.foreground).tryInto
  let background ← (← okOr "background" s.background).tryInto
  let underline ← okOr "underline" underlines[s.underline]?
  let underlineColor ← (← okOr "underline_color" s.underlineColor).tryInto
  return { s with foreground, background, underline, underlineColor }

@[simp] theorem TerminalStyle.tryInto_of (s : Terminal.TerminalStyle) : (of s).tryInto = .ok s := by
  have hu : underlines[underlines.idxOf s.underline]? = some s.underline := by
    cases s.underline <;> rfl
  simp only [of, tryInto, hu, okOr_some, TerminalColor.tryInto_of, ok_bind]
  rfl

/-! ## Rows and their dictionary -/

abbrev Links := List Terminal.TerminalHyperlink

def TerminalHyperlink.of (l : Terminal.TerminalHyperlink) : TerminalHyperlink := ⟨l.id, l.uri⟩

namespace LinkEncoder

/-- A `u32` reference to the dictionary; zero is no link. -/
def cell (links : Links) (cell : Terminal.TerminalCell) : TerminalCell × Links :=
  let link := writePlace (2 ^ 32 - 1) links cell.hyperlink
  ({ cell with hyperlink := link.1, style := some (.of cell.style) }, link.2)

def row (links : Links) (row : Terminal.TerminalSurfaceRow) : TerminalSurfaceRow × Links :=
  let cells := writeAll cell links row.cells
  (⟨cells.1, row.wrapped⟩, cells.2)

end LinkEncoder

/-- The rest of a dictionary, after the links `unique` with `bytes` of payload. -/
def decodeLinksFrom (v : Vendor) (bytes : Nat) (unique : Links) :
    List TerminalHyperlink → Decoded Links
  | [] => .ok []
  | value :: values => do
    let link ← okOr "hyperlinks" (Terminal.TerminalHyperlink.new v value.id value.uri)
    let bytes := min (bytes + link.payloadBytes) (2 ^ 64 - 1)
    if bytes > maxTerminalHyperlinkBytes ∨ link ∈ unique then throw ⟨"hyperlinks"⟩
    return link :: (← decodeLinksFrom v bytes (link :: unique) values)

def decodeLinks (v : Vendor) (values : List TerminalHyperlink) : Decoded Links :=
  if values.length > maxTerminalHyperlinks then .error ⟨"hyperlinks"⟩
  else decodeLinksFrom v 0 [] values

def decodeCell (links : Links) (cell : TerminalCell) : Decoded Terminal.TerminalCell := do
  let hyperlink ← readPlace ⟨"hyperlink_reference"⟩ links cell.hyperlink
  let style ← (← okOr "cell_style" cell.style).tryInto
  return { cell with hyperlink, style }

def decodeRow (links : Links) (row : TerminalSurfaceRow) : Decoded Terminal.TerminalSurfaceRow :=
  return ⟨← row.cells.mapM (decodeCell links), row.wrapped⟩

/-- The rows and the dictionary of a message. -/
def encodeRows (rows : List Terminal.TerminalSurfaceRow) :
    List TerminalSurfaceRow × List TerminalHyperlink :=
  let message := writeAll LinkEncoder.row [] rows
  (message.1, message.2.map .of)

/-- The rows of a message as a client reads them. -/
def decodeRows (v : Vendor) (message : List TerminalSurfaceRow × List TerminalHyperlink) :
    Decoded (List Terminal.TerminalSurfaceRow) := do
  let links ← decodeLinks v message.2
  message.1.mapM (decodeRow links)

/-- What `decode_links` accepts: validated links, no two equal, within the bounds. -/
theorem decodeLinksFrom_ok_iff {v : Vendor} {bytes : Nat} {unique links : Links}
    {values : List TerminalHyperlink} (hbytes : bytes ≤ maxTerminalHyperlinkBytes) :
    decodeLinksFrom v bytes unique values = .ok links ↔
      List.Forall₂ (fun value l => Terminal.TerminalHyperlink.new v value.id value.uri = some l)
        values links ∧
      bytes + (links.map (·.payloadBytes)).sum ≤ maxTerminalHyperlinkBytes ∧ links.Nodup ∧
      ∀ l ∈ links, l ∉ unique := by
  induction values generalizing bytes unique links with
  | nil => cases links <;> simp [decodeLinksFrom, hbytes]
  | cons value values ih =>
    have hmax : maxTerminalHyperlinkBytes < 2 ^ 64 - 1 := by decide
    rw [decodeLinksFrom, List.forall₂_cons_left_iff]
    cases hnew : Terminal.TerminalHyperlink.new v value.id value.uri with
    | none => simp [okOr, bind, Except.bind]
    | some l =>
      simp only [okOr_some, ok_bind, throwing_ok, bind_ok, not_or, not_lt, gt_iff_lt]
      -- within the bound the sum does not saturate
      have hsum : bytes + l.payloadBytes ≤ maxTerminalHyperlinkBytes →
          min (bytes + l.payloadBytes) (2 ^ 64 - 1) = bytes + l.payloadBytes := by omega
      constructor
      · rintro ⟨⟨hroom, hunique⟩, rest, hrest, hlinks⟩
        obtain rfl : l :: rest = links := Except.ok.inj hlinks
        rw [hsum (by omega)] at hroom hrest
        obtain ⟨hall, hbound, honce, hfresh⟩ := (ih hroom).mp hrest
        refine ⟨⟨l, rest, rfl, hall, rfl⟩, ?_, ?_, ?_⟩
        · simp only [List.map_cons, List.sum_cons]
          omega
        · exact List.nodup_cons.mpr ⟨fun hl => hfresh l hl List.mem_cons_self, honce⟩
        · rintro l' (_ | ⟨_, hl'⟩)
          · exact hunique
          · exact fun hmem => hfresh l' hl' (List.mem_cons_of_mem _ hmem)
      · rintro ⟨⟨l', rest, hl', hall, rfl⟩, hbound, honce, hfresh⟩
        obtain rfl := Option.some.inj hl'
        simp only [List.map_cons, List.sum_cons] at hbound
        rw [hsum (by omega)]
        rw [List.nodup_cons] at honce
        refine ⟨⟨by omega, hfresh l List.mem_cons_self⟩, rest, (ih (by omega)).mpr
          ⟨hall, by omega, honce.2, fun l' hl' => ?_⟩, rfl⟩
        rintro (_ | ⟨_, hmem⟩)
        · exact honce.1 hl'
        · exact hfresh l' (List.mem_cons_of_mem _ hl') hmem

theorem LinkEncoder.row_writes {links : Links} {row : Terminal.TerminalSurfaceRow}
    (h : ∀ cell ∈ row.cells, ∀ link ∈ cell.hyperlink, link ∈ links) :
    Writes (2 ^ 32 - 1) (· ∈ links) LinkEncoder.row decodeRow row := by
  have hcell : ∀ cell ∈ row.cells,
      Writes (2 ^ 32 - 1) (· ∈ links) LinkEncoder.cell decodeCell cell :=
    fun cell hcell => Writes.wrap Terminal.TerminalCell.hyperlink
      (fun cell hyperlink =>
        ({ cell with hyperlink, style := some (.of cell.style) } : TerminalCell))
      (Writes.place ⟨"hyperlink_reference"⟩ (h cell hcell)) fun all b hb => by
        simp only [decodeCell, hb, okOr_some, TerminalStyle.tryInto_of, ok_bind]
        rfl
  refine Writes.wrap Terminal.TerminalSurfaceRow.cells
    (fun row cells => (⟨cells, row.wrapped⟩ : TerminalSurfaceRow)) (Writes.all hcell)
    fun all b hb => ?_
  simp only [decodeRow, hb, ok_bind]
  rfl

/-- What is assumed of URL parsing: a canonical target is printable and parses to itself. -/
structure UrlLaw (v : Vendor) : Prop where
  canonical : ∀ {uri target}, v.webUrl uri = some target → v.webUrl target = some target
  printable : ∀ {uri target}, v.webUrl uri = some target → target.any isControl = false

theorem UrlLaw.new {v : Vendor} (law : UrlLaw v) {id uri : List Char}
    {l : Terminal.TerminalHyperlink} (h : Terminal.TerminalHyperlink.new v id uri = some l) :
    Terminal.TerminalHyperlink.new v l.id l.uri = some l := by
  unfold Terminal.TerminalHyperlink.new at h ⊢
  split at h
  · cases h
  rename_i hinput
  split at h
  · cases h
  rename_i target hurl
  split at h
  · cases h
  rename_i hlength
  cases h
  simp_all [law.canonical hurl, law.printable hurl]

/-- A client reads the rows that were sent. -/
def Arrives (v : Vendor) (rows : List Terminal.TerminalSurfaceRow) : Prop :=
  decodeRows v (encodeRows rows) = .ok rows

/-- Rows that show links of an accounted table arrive. -/
theorem Arrives.of_shows {v : Vendor} (law : UrlLaw v) {links : Hyperlinks}
    (h : links.Accounted v) {rows : List Terminal.TerminalSurfaceRow}
    (hshows : Shows (links.values.map Prod.snd) rows) : Arrives v rows := by
  have hw := Writes.all fun row hrow => LinkEncoder.row_writes (hshows row hrow)
  set dictionary := (writeAll LinkEncoder.row [] rows).2
  have honce : dictionary.Nodup := hw.once [] List.nodup_nil
  have hin : ∀ l ∈ dictionary, l ∈ links.values.map Prod.snd := hw.known [] (by simp)
  obtain ⟨part, hperm, hsub⟩ := honce.subperm hin
  have hcount : dictionary.length ≤ maxTerminalHyperlinks := by
    rw [← hperm.length_eq]
    refine hsub.length_le.trans ?_
    rw [List.length_map]
    exact h.count
  have hbytes : (dictionary.map (·.payloadBytes)).sum ≤ maxTerminalHyperlinkBytes := by
    rw [← (hperm.map _).sum_eq]
    refine ((hsub.map _).sum_le_sum fun _ _ => Nat.zero_le _).trans ?_
    rw [List.map_map]
    exact h.bytes ▸ h.bounded
  have hdecode : decodeLinks v (dictionary.map .of) = .ok dictionary := by
    rw [decodeLinks, if_neg (by rw [List.length_map]; omega),
      decodeLinksFrom_ok_iff (Nat.zero_le _)]
    refine ⟨?_, by omega, honce, fun _ _ => List.not_mem_nil⟩
    rw [List.forall₂_map_left_iff, List.forall₂_same]
    intro l hl
    obtain ⟨p, hp, rfl⟩ := List.mem_map.mp (hin l hl)
    obtain ⟨uri, huri⟩ := h.validated p hp
    exact law.new huri
  have hroom : maxTerminalHyperlinks < 2 ^ 32 - 1 := by decide
  rw [Arrives, decodeRows, encodeRows, hdecode, ok_bind]
  exact hw.reads [] _ List.prefix_rfl (by omega)

/-- Whatever the child sends, any rows of the published surface, as in a snapshot or a delta, and
any lines of the grid, as in a history window, arrive at the client unchanged. -/
theorem published_rows_transmit {R : Type} (em : Emulator R) (law : UrlLaw em.toVendor)
    (size : TerminalSize) (scrollbackRows : Nat) (t : TerminalModel R)
    (hnew : TerminalModel.new em size scrollbackRows = .ok t) (ops : List ModelOp) :
    (∀ rows ⊆ (ops.foldl (·.apply em) t).snapshot.surface.rows, Arrives em.toVendor rows) ∧
      ∀ lines : List Int, Arrives em.toVendor (lines.map fun line =>
        (projectRow (ops.foldl (·.apply em) t).engine line).toSurfaceRow) := by
  have hinv := accounted_run hnew ops
  obtain ⟨links, hlinks, hshows⟩ := snapshot_shows hinv
  exact ⟨fun rows hrows => Arrives.of_shows law hlinks fun row hrow => hshows row (hrows hrow),
    fun lines => Arrives.of_shows law hinv.sound.engine (projectLines_shows _ lines)⟩

theorem linkwriter_law : UrlLaw linkwriter.toVendor where
  canonical := by simp [linkwriter]
  printable := by simp [linkwriter]

theorem published_rows_transmit_linked :
    ∃ t, TerminalModel.new linkwriter ⟨1, 2⟩ 0 = .ok t ∧
      ((linkedText.foldl (·.apply linkwriter) t).snapshot.surface.rows.any fun row =>
        row.cells.any (·.hyperlink.isSome)) = true ∧
      Arrives linkwriter.toVendor (linkedText.foldl (·.apply linkwriter) t).snapshot.surface.rows :=
  ⟨_, rfl, by decide +kernel,
    (published_rows_transmit linkwriter linkwriter_law ⟨1, 2⟩ 0 _ rfl linkedText).1 _
      (List.Subset.refl _)⟩

theorem decodeRow_links {links : Links} {row : TerminalSurfaceRow} {r : Terminal.TerminalSurfaceRow}
    (h : decodeRow links row = .ok r) :
    ∀ cell ∈ r.cells, ∀ link ∈ cell.hyperlink, link ∈ links := by
  obtain ⟨cells, hcells, hr⟩ := bind_ok.mp h
  obtain rfl : (⟨cells, row.wrapped⟩ : Terminal.TerminalSurfaceRow) = r := Except.ok.inj hr
  intro cell hcell link hlink
  obtain ⟨value, -, hvalue⟩ := mem_of_mapM_ok hcells hcell
  simp only [decodeCell, bind_ok] at hvalue
  obtain ⟨hyperlink, hread, _, -, _, -, hdone⟩ := hvalue
  obtain rfl := Except.ok.inj hdone
  exact readPlace_mem hread link hlink

/-- Whatever a host sends, the cells of the rows a client accepts refer to links that it validated
itself, no two of them equal and all within its bounds. -/
theorem accepted_rows_bounded (v : Vendor)
    (message : List TerminalSurfaceRow × List TerminalHyperlink)
    (rows : List Terminal.TerminalSurfaceRow) (h : decodeRows v message = .ok rows) :
    ∃ links : Links, Shows links rows ∧ links.Nodup ∧ links.length ≤ maxTerminalHyperlinks ∧
      (links.map (·.payloadBytes)).sum ≤ maxTerminalHyperlinkBytes ∧
      ∀ l ∈ links, ∃ id uri, Terminal.TerminalHyperlink.new v id uri = some l := by
  obtain ⟨links, hlinks, hrows⟩ := bind_ok.mp h
  unfold decodeLinks at hlinks
  split at hlinks
  · cases hlinks
  rename_i hcount
  obtain ⟨hall, hbytes, honce, -⟩ := (decodeLinksFrom_ok_iff (Nat.zero_le _)).mp hlinks
  refine ⟨links, fun row hrow => ?_, honce, ?_, by omega, fun l hl => ?_⟩
  · obtain ⟨_, -, hrow⟩ := mem_of_mapM_ok hrows hrow
    exact decodeRow_links hrow
  · rw [← hall.length_eq]
    omega
  · obtain ⟨i, hi, rfl⟩ := List.getElem_of_mem hl
    exact ⟨_, _, (List.forall₂_iff_get.mp hall).2 i (hall.length_eq ▸ hi) hi⟩

/-- One cell that refers to the only entry of the dictionary. -/
def linkedMessage : List TerminalSurfaceRow × List TerminalHyperlink :=
  ([⟨[⟨1, ['x'], false, false, some (.of {})⟩], false⟩], [⟨['i'], ['h']⟩])

theorem accepted_rows_bounded_linked :
    ∃ rows, decodeRows linkwriter.toVendor linkedMessage = .ok rows ∧
      ∃ links : Links, Shows links rows ∧ links.length ≤ maxTerminalHyperlinks :=
  ⟨_, rfl, (accepted_rows_bounded linkwriter.toVendor linkedMessage _ rfl).imp
    fun _ h => ⟨h.1, h.2.2.1⟩⟩

end V2

end Voytty.Proto
