import Meu1oARM.Board.Card
import Meu1oARM.Board.Relays

/-! # The main loop and the log

The main loop looks at one flag after the other, clears it if it is set, and appends a line to
the log. The handlers run in the receive interrupt, between any two of its steps, and so does
the handler of the card detect pin.
-/

namespace Meu1oARM

open Machine CString

/-- The accesses that are logged, in the order in which the main loop looks for them. -/
inductive AccessKind
  | cgi | ssi | relay
  deriving DecidableEq, Repr

namespace AccessKind

def next : AccessKind → AccessKind
  | cgi => ssi
  | ssi => relay
  | relay => cgi

def text : AccessKind → List UInt8
  | cgi => chars " CGI acessado"
  | ssi => chars " SSI acessado"
  | relay => chars " Relay acessado"

end AccessKind

namespace Board

/-- `cartaoCGI`, `cartaoSSI` and `cartaoRELAY` -/
def flag (b : Board) : AccessKind → Bool
  | .cgi => b.cartaoCgi
  | .ssi => b.cartaoSsi
  | .relay => b.cartaoRelay

def clearFlag (b : Board) : AccessKind → Board
  | .cgi => { b with cartaoCgi := false }
  | .ssi => { b with cartaoSsi := false }
  | .relay => { b with cartaoRelay := false }

/-- A line of the log: the time in `date` and a text. -/
def logLine (b : Board) (text : List UInt8) : List UInt8 :=
  13 :: 10 :: (printfInt 2 (short b.date.hour) ++ 58 :: printfInt 2 (short b.date.minute) ++
    58 :: printfInt 2 (short b.date.second) ++ text)

end Board

/-- Where the main loop stands: in front of the test of a flag, of clearing it, of reading the
clock, of `sprintf`, or of `append`. -/
inductive LoopPc
  | test (k : AccessKind)
  | clear (k : AccessKind)
  | stamp (k : AccessKind)
  | print (k : AccessKind)
  | append (k : AccessKind) (line : List UInt8)

/-- The board while the main loop runs. `log` holds the texts passed to `append`, and `owed`
says, for the bookkeeping, which accesses have come while a card was inserted and after the
loop last cleared their flag. -/
structure MainLoop where
  board : Board
  pc : LoopPc
  log : List (List UInt8)
  owed : AccessKind → Bool

/-- What happens next: a step of the main loop, or one of the handlers. The receive interrupt
calls the CGI handler and the SSI handler with an index into their tables. -/
inductive LoopEvent
  | main
  | cgi (iIndex : Fin tabelaCgi.length) (iNumParams : Nat) (args : CgiArgs)
  | ssi (iIndex : Fin etiquetasSsi.length)
  | porte (r : PinRun)

def LoopEvent.isMain : LoopEvent → Bool
  | .main => true
  | _ => false

namespace MainLoop

/-- The kinds of access that a call of the CGI handler is. -/
def cgiKind (iIndex : Nat) : AccessKind → Bool
  | .cgi => true
  | .ssi => false
  | .relay => iIndex = 0

/-- The loop after the start of the server, with the flags as they are initialised. -/
def start (b : Board) (level : Bool) : MainLoop :=
  let b := { b with cartaoSsi := false, cartaoCgi := false, cartaoRelay := false }.startUp level
  if b.cardInserted then
    let b := b.getDatetime
    { board := b
      pc := .test .cgi
      log := [b.logLine (chars " servidor httpd inicializado com sucesso")]
      owed := fun _ => false }
  else { board := b, pc := .test .cgi, log := [], owed := fun _ => false }

/-- A step of the main loop. -/
def main (s : MainLoop) : MainLoop :=
  match s.pc with
  | .test k => { s with pc := if s.board.flag k then .clear k else .test k.next }
  | .clear k =>
    { s with
      board := s.board.clearFlag k
      pc := .stamp k
      owed := fun kind => s.owed kind && kind ≠ k }
  | .stamp k => { s with board := s.board.getDatetime, pc := .print k }
  | .print k => { s with pc := .append k (s.board.logLine k.text) }
  | .append k line => { s with pc := .test k.next, log := s.log ++ [line] }

def step (s : MainLoop) : LoopEvent → MainLoop
  | .main => s.main
  | .cgi iIndex iNumParams args =>
    { s with
      board := (processaCgi s.board iIndex iNumParams args).1
      owed := fun k => s.owed k || (s.board.cardInserted && cgiKind iIndex k) }
  | .ssi iIndex =>
    { s with
      board := (atualizadorSsi s.board iIndex).2
      owed := fun k => s.owed k || (s.board.cardInserted && k = .ssi) }
  | .porte r => { s with board := s.board.irq r }

/-- Every access that is owed a line has its flag set. -/
def Flagged (s : MainLoop) : Prop := ∀ k, s.owed k = true → s.board.flag k = true

/-- No tag is expanded while a card is inserted. -/
def NoCardAtTag (s : MainLoop) : LoopEvent → Prop
  | .ssi _ => s.board.cardInserted = false
  | _ => True

end MainLoop

section Handlers

/-- Nothing has been done to the flags of the log. -/
structure Board.SameFlags (b b' : Board) : Prop where
  cardInserted : b'.cardInserted = b.cardInserted
  flag : b'.flag = b.flag

theorem Board.SameFlags.trans {b b' b'' : Board} (h : b.SameFlags b') (h' : b'.SameFlags b'') :
    b.SameFlags b'' where
  cardInserted := h'.cardInserted.trans h.cardInserted
  flag := h'.flag.trans h.flag

variable (b : Board)

theorem Board.sameFlags_compareRele (value : StringUse) (l : List (List UInt8 × Relay)) :
    b.SameFlags (Board.compareRele value l b) := by
  induction l generalizing b with
  | nil => exact ⟨rfl, rfl⟩
  | cons entry rest ih =>
      rw [Board.compareRele]
      split
      · exact ⟨rfl, rfl⟩
      · have hrest := ih (b.use value)
        exact ⟨hrest.cardInserted, hrest.flag⟩

theorem Board.sameFlags_releParam (n : Nat) (args : CgiArgs) (i : Nat) :
    b.SameFlags (releParam n args b i) := by
  rw [Board.releParam]
  split
  · have hcompare := sameFlags_compareRele (b.use (nameUse n args i)) (valueUse n args i) releValues
    exact ⟨hcompare.cardInserted, hcompare.flag⟩
  · exact ⟨rfl, rfl⟩

theorem Board.sameFlags_releParams (n : Nat) (args : CgiArgs) (l : List Nat) :
    b.SameFlags (l.foldl (releParam n args) b) := by
  induction l generalizing b with
  | nil => exact ⟨rfl, rfl⟩
  | cons i l ih => exact (b.sameFlags_releParam n args i).trans (ih _)

theorem Board.sameFlags_setDatetime : b.SameFlags b.setDatetime := by
  have hclock : ∀ rtc outOfTable, b.SameFlags { b with rtc, outOfTable } := by
    intro rtc outOfTable
    refine ⟨rfl, funext fun k => ?_⟩
    cases k <;> rfl
  exact hclock _ _

theorem Board.flag_irq (r : PinRun) : (b.irq r).flag = b.flag := by
  unfold Board.irq
  split
  next b' rest hrun =>
    match hlevels : r.levels with
    | [] =>
        rw [hlevels] at hrun
        cases hrun
    | true :: levels =>
        rw [hlevels] at hrun
        obtain ⟨rfl, -⟩ : { b with cartao := true } = b' ∧ levels = rest := by
          simpa [Board.porteIrqHandler] using hrun
        rfl
    | [false] =>
        rw [hlevels] at hrun
        cases hrun
    | false :: state :: levels =>
        rw [hlevels] at hrun
        obtain ⟨level, -, rfl⟩ : ∃ level, debounce state levels = some (level, rest) ∧
            { b with cardInserted := level, cartao := true } = b' := by
          simpa [Board.porteIrqHandler, Board.checkCardInserted, and_assoc] using hrun
        rfl
  next => rfl

theorem Board.sameFlags_atualizadorSsi (iIndex : Fin etiquetasSsi.length) :
    b.SameFlags (atualizadorSsi b iIndex).2 := by
  obtain ⟨i, hi⟩ := iIndex
  rw [atualizadorSsi]
  have hlt : i < 3 := hi
  interval_cases i <;> exact ⟨rfl, rfl⟩

theorem Board.flag_flagCgi (k : AccessKind) :
    b.flagCgi.flag k = (b.flag k || (b.cardInserted && k = .cgi)) := by
  cases k <;> simp [Board.flagCgi, Board.flag]

theorem Board.flag_flagRelay (k : AccessKind) :
    b.flagRelay.flag k = (b.flag k || (b.cardInserted && k = .relay)) := by
  cases k <;> simp [Board.flagRelay, Board.flag]

/-- Every call of the CGI handler sets the flags of the accesses that it is, if a card is
inserted. -/
theorem flag_processaCgi (i n : Nat) (args : CgiArgs) (k : AccessKind) :
    (processaCgi b i n args).1.flag k =
      (b.flag k || (b.cardInserted && MainLoop.cgiKind i k)) := by
  have hend : ∀ b' : Board, b'.setDatetime.flagCgi.flag k =
      (b'.flag k || (b'.cardInserted && k = .cgi)) := by
    intro b'
    rw [Board.flag_flagCgi, b'.sameFlags_setDatetime.flag, b'.sameFlags_setDatetime.cardInserted]
  by_cases hrele : i = 0
  · subst hrele
    have hparams := b.startCall.getDatetime.relaysOff.sameFlags_releParams n args (List.range n)
    have hflag : ∀ b' : Board, b'.flagRelay.cardInserted = b'.cardInserted := fun _ => rfl
    rw [processaCgi_rele, hend, hflag, Board.flag_flagRelay, hparams.flag, hparams.cardInserted]
    change ((b.flag k || (b.cardInserted && _)) || (b.cardInserted && _)) = _
    cases k <;> simp [MainLoop.cgiKind]
  · have hsame : (processaCgi b i n args).1.flag k = (b.flag k || (b.cardInserted && k = .cgi)) := by
      rw [processaCgi, if_neg hrele, hend]
      split
      · rfl
      · split <;> rfl
    rw [hsame]
    cases k <;> simp [MainLoop.cgiKind, hrele]

end Handlers

namespace MainLoop

theorem flag_clearFlag (b : Board) (k j : AccessKind) :
    (b.clearFlag k).flag j = (b.flag j && j ≠ k) := by
  cases k <;> cases j <;> simp [Board.clearFlag, Board.flag]

/-- The CGI handler never leaves an access without its flag, and the SSI handler never sets
one. -/
structure Inv (s : MainLoop) : Prop where
  flagged : ∀ k, k ≠ .ssi → s.owed k = true → s.board.flag k = true
  unset : s.board.flag .ssi = false

theorem inv_main {s : MainLoop} (h : s.Inv) : s.main.Inv := by
  unfold main
  split
  · exact ⟨h.flagged, h.unset⟩
  next k _ =>
    constructor
    · intro j hj howed
      rw [Bool.and_eq_true] at howed
      rw [flag_clearFlag, h.flagged j hj howed.1, howed.2]
      rfl
    · rw [flag_clearFlag, h.unset]
      rfl
  · exact ⟨h.flagged, h.unset⟩
  · exact ⟨h.flagged, h.unset⟩
  · exact ⟨h.flagged, h.unset⟩

theorem inv_step (s : MainLoop) (e : LoopEvent) (h : s.Inv) : (s.step e).Inv := by
  cases e with
  | main => exact inv_main h
  | cgi i n args =>
      constructor
      · intro k hk howed
        change (processaCgi s.board i n args).1.flag k = true
        rw [flag_processaCgi, Bool.or_eq_true]
        rcases Bool.or_eq_true_iff.mp howed with hbefore | hnow
        · exact Or.inl (h.flagged k hk hbefore)
        · exact Or.inr hnow
      · change (processaCgi s.board i n args).1.flag .ssi = false
        rw [flag_processaCgi, h.unset, cgiKind, Bool.and_false]
        rfl
  | ssi i =>
      have hflag : (atualizadorSsi s.board i).2.flag = s.board.flag :=
        (s.board.sameFlags_atualizadorSsi i).flag
      constructor
      · intro k hk howed
        change (atualizadorSsi s.board i).2.flag k = true
        rw [hflag]
        apply h.flagged k hk
        simpa [step, hk] using howed
      · change (atualizadorSsi s.board i).2.flag .ssi = false
        rw [hflag, h.unset]
  | porte r =>
      constructor
      · intro k hk howed
        change (s.board.irq r).flag k = true
        rw [Board.flag_irq]
        exact h.flagged k hk howed
      · change (s.board.irq r).flag .ssi = false
        rw [Board.flag_irq, h.unset]

variable (b : Board) (level : Bool)

theorem inv_start : (start b level).Inv := by
  cases level <;> exact ⟨nofun, rfl⟩

/-- In every run, CGI and relay accesses are flagged until the loop clears the flag. -/
theorem inv_run (es : List LoopEvent) : (Run.run step (start b level) es).Inv :=
  Run.invariant_of_step inv_step (inv_start b level) es

/-- As long as no tag is expanded while a card is inserted, no line is owed to one. -/
theorem owed_ssi_step (s : MainLoop) (e : LoopEvent) (h : s.owed .ssi = false)
    (hcard : s.NoCardAtTag e) : (s.step e).owed .ssi = false := by
  cases e with
  | main =>
      change s.main.owed .ssi = false
      unfold main
      split <;> simp [h]
  | cgi i n args => simp [step, cgiKind, h]
  | ssi i =>
      have hnot : s.board.cardInserted = false := hcard
      simp [step, h, hnot]
  | porte r => exact h

/-- Every access of a run is flagged until its line is logged if and only if no tag is expanded
while a card is inserted. -/
theorem accesses_flagged_iff (es : List LoopEvent) :
    (∀ es', es' <+: es → (Run.run step (start b level) es').Flagged) ↔
      Run.Steps step NoCardAtTag (start b level) es := by
  constructor
  · intro h
    rw [Run.steps_iff]
    intro before e hbefore
    cases e with
    | ssi i =>
        -- right after the call a line is owed, but the flag has not been set
        by_contra hcard
        have hflag := h _ hbefore .ssi
        have hinv := inv_run b level (before ++ [.ssi i])
        rw [Run.run_concat] at hflag hinv
        rw [hinv.unset] at hflag
        apply absurd (hflag _) (by decide)
        have hcard' : (Run.run step (start b level) before).board.cardInserted = true :=
          (Bool.not_eq_false _).mp hcard
        simp [step, hcard']
    | _ => trivial
  · intro hsteps es' hes' k howed
    have hinv := inv_run b level es'
    cases k with
    | ssi =>
        have hnone : (Run.run step (start b level) es').owed .ssi = false :=
          Run.invariant (I := fun s => s.owed .ssi = false) owed_ssi_step
            (by cases level <;> rfl) (hsteps.of_isPrefixOf hes')
        rw [hnone] at howed
        cases howed
    | cgi => exact hinv.flagged .cgi (by decide) howed
    | relay => exact hinv.flagged .relay (by decide) howed

/-- A card is inserted, and a page with the first tag is fetched. -/
theorem tag_not_flagged :
    ¬(Run.run step (start (.trial 0 0) false) [.ssi ⟨0, by decide⟩]).Flagged := by
  intro h
  exact absurd (h .ssi (by decide +kernel)) (by decide +kernel)

section Progress

/-- So many steps of the main loop away, a line for the access is in the log. -/
inductive Due (k : AccessKind) (s : MainLoop) : Nat → Prop
  | logged (b : Board) (h : b.logLine k.text ∈ s.log) : Due k s 0
  | append (b : Board) (h : s.pc = .append k (b.logLine k.text)) : Due k s 1
  | print (h : s.pc = .print k) : Due k s 2
  | stamp (h : s.pc = .stamp k) : Due k s 3
  | clear (h : s.pc = .clear k) : Due k s 4
  | test (h : s.pc = .test k) (hflag : s.board.flag k = true) : Due k s 5

variable {k : AccessKind}

theorem Due.main {s : MainLoop} {n : Nat} (h : Due k s n) : Due k s.main (n - 1) := by
  cases h with
  | logged b h =>
      refine .logged b ?_
      unfold MainLoop.main
      split <;> simp [h]
  | append b h =>
      refine .logged b ?_
      simp [MainLoop.main, h]
  | print h => exact .append s.board (by rw [MainLoop.main, h])
  | stamp h => exact .print (by rw [MainLoop.main, h])
  | clear h => exact .stamp (by rw [MainLoop.main, h])
  | test h hflag =>
      refine .clear ?_
      rw [MainLoop.main, h]
      exact if_pos hflag

/-- The handlers do not hold up the main loop, and they do not clear a flag. -/
theorem Due.handler {s : MainLoop} {n : Nat} (h : Due k s n) {e : LoopEvent} (he : e ≠ .main) :
    Due k (s.step e) n := by
  -- a handler replaces the board and what is owed, and nothing else
  have hpc : ∀ board owed, ({ s with board, owed } : MainLoop).pc = s.pc := fun _ _ => rfl
  have hlog : ∀ board owed, ({ s with board, owed } : MainLoop).log = s.log := fun _ _ => rfl
  have hkeeps : (s.step e).pc = s.pc ∧ (s.step e).log = s.log ∧
      (s.board.flag k = true → (s.step e).board.flag k = true) := by
    cases e with
    | main => exact absurd rfl he
    | cgi i m args =>
        refine ⟨hpc _ _, hlog _ _, fun hflag => ?_⟩
        change (processaCgi s.board i m args).1.flag k = true
        rw [flag_processaCgi, hflag, Bool.true_or]
    | ssi i =>
        refine ⟨hpc _ _, hlog _ _, fun hflag => ?_⟩
        change (atualizadorSsi s.board i).2.flag k = true
        rw [(s.board.sameFlags_atualizadorSsi i).flag, hflag]
    | porte r =>
        refine ⟨hpc _ _, hlog _ _, fun hflag => ?_⟩
        change (s.board.irq r).flag k = true
        rw [Board.flag_irq, hflag]
  obtain ⟨hpc, hlog, hset⟩ := hkeeps
  cases h with
  | logged b h => exact .logged b (hlog ▸ h)
  | append b h => exact .append b (hpc.trans h)
  | print h => exact .print (hpc.trans h)
  | stamp h => exact .stamp (hpc.trans h)
  | clear h => exact .clear (hpc.trans h)
  | test h hflag => exact .test (hpc.trans h) (hset hflag)

/-- When the loop comes to test a flag that is set, the line for it is appended within five
steps of the loop, whatever the handlers do in between. -/
theorem flag_logged {s : MainLoop} (hpc : s.pc = .test k) (hflag : s.board.flag k = true)
    {es : List LoopEvent} (hmain : 5 ≤ es.countP LoopEvent.isMain) :
    ∃ b : Board, b.logLine k.text ∈ (Run.run step s es).log := by
  have hdue : ∀ (es : List LoopEvent) (s : MainLoop) (n : Nat), Due k s n →
      Due k (Run.run step s es) (n - es.countP LoopEvent.isMain) := by
    intro es
    induction es with
    | nil => exact fun s n h => h
    | cons e es ih =>
        intro s n h
        cases e with
        | main =>
            have hrest := ih s.main (n - 1) h.main
            rw [Nat.sub_sub, Nat.add_comm] at hrest
            rwa [List.countP_cons_of_pos rfl]
        | cgi i m args => exact ih _ n (h.handler nofun)
        | ssi i => exact ih _ n (h.handler nofun)
        | porte r => exact ih _ n (h.handler nofun)
  have hend := hdue es s 5 (.test hpc hflag)
  rw [Nat.sub_eq_zero_of_le hmain] at hend
  cases hend with
  | logged b h => exact ⟨b, h⟩

end Progress

end MainLoop

end Meu1oARM
