import PyFaaS.TextLines

/-!
# Two output streams into one pipe

Text for the first stream stays in a buffer until it is flushed, text for the
second one goes out at once. `print` and `printErr` write a whole line and flush
it, as long as their stream leads to the pipe.
-/

namespace PyFaaS.BufferedOutput
open TextLines

/-- The buffer may also be emptied elsewhere, and the streams led elsewhere. -/
inductive Write where
  | out (x : Text)
  | flush
  | err (x : Text)
  | discard
  | leads (stdout stderr : Bool)
  deriving DecidableEq, Repr

structure Console where
  pipe : Text
  pending : Text
  stdout : Bool
  stderr : Bool
  deriving DecidableEq, Repr

namespace Console

def start : Console := ⟨[], [], true, true⟩

def write (c : Console) : Write → Console
  | .out x => { c with pending := c.pending ++ x }
  | .flush => { c with pipe := c.pipe ++ c.pending, pending := [] }
  | .err x => { c with pipe := c.pipe ++ x }
  | .discard => { c with pending := [] }
  | .leads stdout stderr => { c with stdout := stdout, stderr := stderr }

def writes (c : Console) (ws : List Write) : Console := ws.foldl write c

def print (c : Console) (line : Text) : Console :=
  if c.stdout then { c with pipe := c.pipe ++ c.pending ++ (line ++ ['\n']), pending := [] } else c

def writeErr (c : Console) (x : Text) : Console := if c.stderr then { c with pipe := c.pipe ++ x } else c

def printErr (c : Console) (line : Text) : Console := c.writeErr (line ++ ['\n'])

def text (c : Console) : Text := c.pipe ++ c.pending

def behind (x : Text) (c : Console) : Console := { c with pipe := x ++ c.pipe }

/-- What is left open when a line has been printed: all but the line itself, if
its stream leads to the pipe. -/
def afterPrint (c : Console) : Console := if c.stdout then { c with pipe := [], pending := [] } else c

def afterPrintErr (c : Console) : Console := if c.stderr then { c with pipe := [] } else c

@[simp] theorem writes_nil (c : Console) : c.writes [] = c := rfl

@[simp] theorem writes_cons (c : Console) (w : Write) (ws : List Write) :
    c.writes (w :: ws) = (c.write w).writes ws := rfl

theorem writes_behind (x : Text) (c : Console) (ws : List Write) :
    (c.behind x).writes ws = (c.writes ws).behind x := by
  induction ws generalizing c with
  | nil => rfl
  | cons w ws ih =>
    have hwrite : (c.behind x).write w = (c.write w).behind x := by
      cases w <;> simp [write, behind]
    rw [writes_cons, writes_cons, hwrite, ih]

theorem text_behind (x : Text) (c : Console) : (c.behind x).text = x ++ c.text := by
  simp [text, behind]

theorem text_print {c : Console} (hstdout : c.stdout = true) (line : Text) :
    (c.print line).pipe = c.text ++ (line ++ ['\n']) ∧ (c.print line).pending = [] := by
  simp [print, text, hstdout]

theorem writes_congr {c d : Console} (hpipe : c.pipe = d.pipe) (hpending : c.pending = d.pending)
    (ws : List Write) : (c.writes ws).pipe = (d.writes ws).pipe ∧ (c.writes ws).pending = (d.writes ws).pending := by
  induction ws generalizing c d with
  | nil => exact ⟨hpipe, hpending⟩
  | cons w ws ih =>
    cases w with
    | out x => exact ih hpipe (by simp [write, hpending])
    | flush => exact ih (by simp [write, hpipe, hpending]) rfl
    | err x => exact ih (by simp [write, hpipe]) hpending
    | discard => exact ih hpipe rfl
    | leads stdout stderr => exact ih hpipe hpending

/-! ## Open text behind whole lines -/

def Lies (g c : Console) : Prop := ∃ x, AtLineStart x ∧ c = g.behind x

theorem lies_start : Lies start start := ⟨[], atLineStart_nil, rfl⟩

variable {g c : Console}

theorem Lies.stdout (h : Lies g c) : c.stdout = g.stdout := by
  obtain ⟨x, -, rfl⟩ := h
  rfl

theorem Lies.writes (h : Lies g c) (ws : List Write) : Lies (g.writes ws) (c.writes ws) := by
  obtain ⟨x, hx, rfl⟩ := h
  exact ⟨x, hx, writes_behind x g ws⟩

theorem atLineStart_line (x line : Text) : AtLineStart (x ++ (line ++ ['\n'])) := by
  rw [← List.append_assoc, atLineStart_append_singleton]
  rfl

theorem Lies.print (h : Lies g c) (line : Text) : Lies g.afterPrint (c.print line) := by
  obtain ⟨x, hx, rfl⟩ := h
  by_cases hstdout : g.stdout = true
  · exact ⟨x ++ g.pipe ++ g.pending ++ (line ++ ['\n']), atLineStart_line _ line, by
      simp [Console.print, afterPrint, behind, hstdout]⟩
  · exact ⟨x, hx, by simp [Console.print, afterPrint, behind, hstdout]⟩

theorem Lies.printErr (h : Lies g c) (line : Text) : Lies g.afterPrintErr (c.printErr line) := by
  obtain ⟨x, hx, rfl⟩ := h
  by_cases hstderr : g.stderr = true
  · exact ⟨x ++ g.pipe ++ (line ++ ['\n']), atLineStart_line _ line, by
      simp [Console.printErr, writeErr, afterPrintErr, behind, hstderr]⟩
  · exact ⟨x, hx, by simp [Console.printErr, writeErr, afterPrintErr, behind, hstderr]⟩

theorem Lies.prints (h : Lies start c) (lines : List Text) : Lies start (lines.foldl Console.print c) := by
  induction lines generalizing c with
  | nil => exact h
  | cons line lines ih => exact ih (h.print line)

theorem Lies.atLineStart_iff (h : Lies g c) : AtLineStart c.text ↔ AtLineStart g.text := by
  obtain ⟨x, hx, rfl⟩ := h
  rw [text_behind, atLineStart_append_of_left hx]

end Console

end PyFaaS.BufferedOutput
