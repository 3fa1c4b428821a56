import Nazg.Lib.BinaryFloat
import Nazg.Lib.Words
import Nazg.Tui.Layout

/-!
# Rendering a layout

`Window::render_node` makes one element of a layout: the panes in boxes beside or above one
another, with a line between them where there is room for one. The size that a box has along
its split is divided with a product in single precision, a correction and two clamps.

Themes and the active pane do not matter for the sizes and are left out.
-/

namespace Nazg.Tui

open Lib

/-- What the children of a box get along its split, and what is drawn between them. -/
structure Division where
  separator : Int
  first : Int
  second : Int
  deriving DecidableEq

inductive Element (α : Type*) where
  | filler
  /-- A pane of this size. -/
  | pane (pane : α) (width height : Int)
  /-- An `hbox` or a `vbox` of two elements with fixed sizes. -/
  | box (direction : SplitDirection) (division : Division) (first second : Element α)

/-- `0.05f` and `0.95f`. -/
def minRatio : ℚ := 13421773 / 268435456

def maxRatio : ℚ := 15938355 / 16777216

def clampRatio (ratio : ℚ) : ℚ := max minRatio (min ratio maxRatio)

/-- The sizes along a split, from a size of at least 1. -/
def divideSize (size : Int) (ratio : ℚ) : Division :=
  let separator := if size > 1 then 1 else 0
  let usable := max 1 (size - separator)
  let first := max 1 (scaleInt usable ratio)
  let second := max 1 (usable - first)
  let allocated := first + second
  if allocated ≠ usable then
    let second := second + (usable - allocated)
    if second < 1 then ⟨separator, max 1 (usable - 1), 1⟩ else ⟨separator, first, second⟩
  else ⟨separator, first, second⟩

namespace Link

variable {α : Type*}

def isNull : Link α → Bool
  | null => true
  | node .. => false

/-- `render_node`. -/
def renderNode : Link α → Int → Int → Element α
  | null, _, _ => .filler
  | node (some pane) _ _ _ _, width, height => .pane pane (max 1 width) (max 1 height)
  | node none direction l r ratio, width, height =>
      if l.isNull || r.isNull then .filler
      else
        match direction with
        | .horizontal =>
            let division := divideSize (max 1 width) (clampRatio ratio)
            .box .horizontal division (l.renderNode division.first (max 1 height))
              (r.renderNode division.second (max 1 height))
        | .vertical =>
            let division := divideSize (max 1 height) (clampRatio ratio)
            .box .vertical division (l.renderNode (max 1 width) division.first)
              (r.renderNode (max 1 width) division.second)

end Link

/-!
## Wrapping text

`wrap_text` breaks the words of a text into lines of a width. Sizes are compared after a cast to
`int`.
-/

/-- `static_cast<int>` of a size. -/
def castInt (size : Nat) : Int := (size : Int).bmod (2 ^ 32)

/-- The loop over a word: `substr` from every multiple of the width. -/
def chunksFrom (maxWidth : Nat) (word : Bytes) (pos : Nat) : List Bytes :=
  if 0 < maxWidth ∧ pos < word.length then
    (word.drop pos).take maxWidth :: chunksFrom maxWidth word (pos + maxWidth)
  else []
termination_by word.length - pos

/-- `lines` and `current_line`. -/
structure Wrapping where
  lines : List Bytes
  currentLine : Bytes

/-- `if (!current_line.empty()) lines.push_back(current_line)`. -/
def Wrapping.flush (w : Wrapping) : List Bytes :=
  if w.currentLine = [] then w.lines else w.lines ++ [w.currentLine]

/-- The body of the loop over the words. -/
def Wrapping.addWord (maxWidth : Int) (w : Wrapping) (word : Bytes) : Wrapping :=
  if maxWidth ≤ castInt word.length then
    { lines := w.flush ++ chunksFrom maxWidth.toNat word 0, currentLine := [] }
  else if w.currentLine = [] then { w with currentLine := word }
  else if castInt (w.currentLine.length + 1 + word.length) ≤ maxWidth then
    { w with currentLine := w.currentLine ++ 32 :: word }
  else { lines := w.lines ++ [w.currentLine], currentLine := word }

/-- The body of the loop over the paragraphs. -/
def wrapSegment (maxWidth : Int) (lines : List Bytes) (segment : Bytes) : List Bytes :=
  if segment = [] then lines ++ [[]]
  else
    ((getWords segment).foldl (Wrapping.addWord maxWidth)
      { lines := lines, currentLine := [] }).flush

/-- `wrap_text`. -/
def wrapText (text : Bytes) (maxWidth : Int32) : List Bytes :=
  if maxWidth.toInt ≤ 0 then [text]
  else
    let lines := (getFields 10 text).foldl (wrapSegment maxWidth.toInt) []
    if lines = [] then [[]] else lines

/-!
## A pane of the terminal UI

A pane keeps the last part of what its terminal sent in a buffer, and a list of lines to
scroll back through, to which every read adds the lines of the buffer.
-/

/-- What one call of `read` returns: the bytes are there, and there is room for 4096. -/
structure Chunk where
  data : Bytes
  ne_nil : data ≠ []
  length_le : data.length ≤ 4096

structure Pane where
  buffer : Bytes := []
  scrollback : List Bytes := []

namespace Pane

def maxBufferSize : Nat := 100000

def maxScrollbackLines : Nat := 10000

/-- The lines of a text, as `std::getline` reads them. -/
def linesOf (text : Bytes) : List Bytes := getFields 10 text

/-- The buffer is cut in the middle when it has grown too large. -/
def keepManageable (buffer : Bytes) : Bytes :=
  if buffer.length > maxBufferSize then buffer.drop (buffer.length - maxBufferSize / 2) else buffer

def updateScrollback (p : Pane) : Pane :=
  let newLines := linesOf p.buffer
  if newLines = [] then p
  else
    let scrollback := p.scrollback ++ newLines
    { p with
      scrollback :=
        if scrollback.length > maxScrollbackLines then
          scrollback.drop (scrollback.length - maxScrollbackLines)
        else scrollback }

def processOutput (p : Pane) (data : Bytes) : Pane :=
  updateScrollback { p with buffer := keepManageable (p.buffer ++ data) }

/-- `update`, with what its reads return until there is nothing more. Further updates go on
with further reads. -/
def update (p : Pane) (reads : List Chunk) : Pane :=
  reads.foldl (fun p chunk => p.processOutput chunk.data) p

end Pane

end Nazg.Tui
