import Meu1oARM.Board.Dispatch
import Meu1oARM.Foundation.Run

/-! # The card detect pin

The server reads the pin once when it starts, and the port interrupt reads it again at
every edge. Levels are booleans, `true` for high; the pin is low while a card is inserted.
-/

namespace Meu1oARM

/-- The loop of `check_card_inserted`: the level on which it ends, and the levels that are read
after it. -/
def debounce (state : Bool) : List Bool → Option (Bool × List Bool)
  | [] => none
  | level :: rest => if level = state then some (level, rest) else debounce level rest

namespace Board

/-- `check_card_inserted`, with the levels still to be read -/
def checkCardInserted (b : Board) : List Bool → Option (Board × List Bool)
  | [] => none
  | state :: rest =>
    (debounce state rest).map fun (state, rest) => ({ b with cardInserted := state = true }, rest)

/-- `PORTE_IRQHandler` -/
def porteIrqHandler (b : Board) : List Bool → Option (Board × List Bool)
  | [] => none
  | level :: rest =>
    let result := if !level then b.checkCardInserted rest else some (b, rest)
    result.map fun (b, rest) => ({ b with cartao := true }, rest)

/-- The check in `httpd_server_init` -/
def startUp (b : Board) (level : Bool) : Board := { b with cardInserted := !level }

end Board

/-- One run of the interrupt handler: the levels it reads until it returns. -/
structure PinRun where
  levels : List Bool
  complete : ∀ b : Board, (b.porteIrqHandler levels).map Prod.snd = some []

def Board.irq (b : Board) (r : PinRun) : Board :=
  match b.porteIrqHandler r.levels with
  | some (b', _) => b'
  | none => b

/-- The board and the level read last. -/
structure PinState where
  board : Board
  level : Bool

namespace PinState

def start (b : Board) (level : Bool) : PinState := { board := b.startUp level, level }

def irq (s : PinState) (r : PinRun) : PinState :=
  { board := s.board.irq r, level := r.levels.getLastD s.level }

/-- A card is taken to be inserted exactly if the last level was low. -/
def Agrees (s : PinState) : Prop := s.board.cardInserted = true ↔ s.level = false

end PinState

/-- The loop ends on the last level it reads. -/
theorem debounce_last {state last : Bool} {levels : List Bool}
    (h : debounce state levels = some (last, [])) : levels.getLast? = some last := by
  induction levels generalizing state with
  | nil => cases h
  | cons level rest ih =>
      rw [debounce] at h
      split at h
      · obtain ⟨rfl, rfl⟩ : level = last ∧ rest = [] := by simpa using h
        rfl
      · rw [List.getLast?_cons, ih h]
        rfl

/-- A run of the handler reads a high level and nothing more, or it sets `cardInserted` to the
last level it reads. -/
theorem PinRun.irq_cases (r : PinRun) (s : PinState) :
    (r.levels.head? = some true ∧ (s.irq r).board.cardInserted = s.board.cardInserted ∧
        (s.irq r).level = true) ∨
      (r.levels.head? = some false ∧ (s.irq r).board.cardInserted = (s.irq r).level) := by
  have hcomplete := r.complete s.board
  unfold PinState.irq Board.irq
  match hlevels : r.levels with
  | [] =>
      rw [hlevels] at hcomplete
      cases hcomplete
  | true :: rest =>
      rw [hlevels] at hcomplete
      obtain rfl : rest = [] := by simpa [Board.porteIrqHandler] using hcomplete
      exact Or.inl ⟨rfl, rfl, rfl⟩
  | [false] =>
      rw [hlevels] at hcomplete
      cases hcomplete
  | false :: state :: rest =>
      right
      rw [hlevels] at hcomplete
      cases hloop : debounce state rest with
      | none => simp [Board.porteIrqHandler, Board.checkCardInserted, hloop] at hcomplete
      | some result =>
          obtain ⟨last, after⟩ := result
          obtain rfl : after = [] := by
            simpa [Board.porteIrqHandler, Board.checkCardInserted, hloop] using hcomplete
          have hlast := debounce_last hloop
          simp [Board.porteIrqHandler, Board.checkCardInserted, hloop, List.getLast?_cons,
            List.getLastD_eq_getLast?, hlast]

namespace PinState

/-- After a run of the handler the flag is right only if the pin was high from the start and
the flag did not have to change. -/
theorem agrees_irq_iff (s : PinState) (r : PinRun) :
    (s.irq r).Agrees ↔ r.levels.head? = some true ∧ s.board.cardInserted = false := by
  rw [Agrees]
  rcases r.irq_cases s with ⟨hhigh, hsame, hlevel⟩ | ⟨hlow, hlast⟩
  · simp [hhigh, hsame, hlevel]
  · simp [hlow, hlast]

/-- The flag follows the pin if and only if the handler never finds the pin low, and it was
high from the start unless the handler never runs. -/
theorem card_flag_agrees_iff (b : Board) (level : Bool) (runs : List PinRun) :
    (∀ runs', runs' <+: runs → (Run.run irq (start b level) runs').Agrees) ↔
      runs = [] ∨ (level = true ∧ ∀ r ∈ runs, r.levels.head? = some true) := by
  constructor
  · intro h
    rcases runs with _ | ⟨r, runs⟩
    · exact Or.inl rfl
    · right
      refine ⟨?_, ?_⟩
      · have hfirst := h [r] (List.cons_prefix_cons.mpr ⟨rfl, List.nil_prefix⟩)
        rw [Run.run_cons, Run.run_nil, agrees_irq_iff] at hfirst
        simpa [start, Board.startUp] using hfirst.2
      · intro r' hr'
        obtain ⟨before, after, hsplit⟩ := List.append_of_mem hr'
        have hlast := h (before ++ [r']) ⟨after, by simp [hsplit]⟩
        rw [Run.run_concat, agrees_irq_iff] at hlast
        exact hlast.1
  · have hstart : (start b level).Agrees := by
      simp [Agrees, start, Board.startUp]
    rintro (rfl | ⟨rfl, hhigh⟩) runs' hruns
    · rw [List.prefix_nil.mp hruns]
      exact hstart
    · -- while the pin stays high, the flag stays as the start has left it
      have hsteps : Run.Steps irq (fun _ r => r.levels.head? = some true) (start b true) runs' := by
        rw [Run.steps_iff]
        intro before r hr
        exact hhigh r ((hr.trans hruns).subset (by simp))
      have hkept : (Run.run irq (start b true) runs').board.cardInserted = false ∧
          (Run.run irq (start b true) runs').level = true := by
        apply Run.invariant (I := fun s => s.board.cardInserted = false ∧ s.level = true) _
          ⟨rfl, rfl⟩ hsteps
        intro s r hs hr
        rcases r.irq_cases s with ⟨-, hsame, hlevel⟩ | ⟨hlow, -⟩
        · exact ⟨hsame.trans hs.1, hlevel⟩
        · exact absurd (hr.symm.trans hlow) (by decide)
      rw [Agrees, hkept.1, hkept.2]
      decide

end PinState

/-- A card is inserted: the handler finds the pin low, and the loop reads it low twice. -/
def PinRun.insertion : PinRun where
  levels := [false, false, false]
  complete _ := rfl

/-- The inserted card is taken to be removed. -/
theorem card_insertion_missed :
    ¬(Run.run PinState.irq (.start (.trial 0 0) true) [.insertion]).Agrees := by
  intro h
  exact absurd (h.mpr rfl) (by decide)

end Meu1oARM
