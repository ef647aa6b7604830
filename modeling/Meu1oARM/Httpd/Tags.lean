import Meu1oARM.Httpd.Idle
import Meu1oARM.Httpd.Response
import Meu1oARM.Httpd.TagGrammar

/-! # Which tags are looked up

A file with tags is scanned once, from its front to its end, whatever lwIP does meanwhile.
So the grammar decides which of its tags are looked up.
-/

namespace Meu1oARM

open Machine CString Tokens

variable {σ : Type} {site : Site σ} {c : Ctx σ}

/-! ## A connection while it scans -/

/-- Sending after the counter has been set. -/
theorem Scanned.tried {hs : HttpState} (h : Scanned c) (hcell : c.cell = .live hs)
    (hopen : c.pcb.status = .opened) (harg : c.pcb.callbackArg = .state hs.addr)
    (hactive : Active site c.pcb hs) (e : Call) (n : Nat) : Scanned (c.tried site e hs n) := by
  have hactive' : Active site (c.window e).pcb hs := hactive.congr hopen (.refl _)
  have hscanned : Scanned { c.window e with cell := .live { hs with retries := n } } :=
    h.congr rfl hcell rfl rfl rfl
  exact httpSend_scanned rfl hopen harg (hactive'.retries n) hscanned

theorem Scanned.output (h : Scanned c) : Scanned (c.log .output) := by
  have hquiet : ∀ a ∈ [Action.output], a.isQuiet := by simp [Action.isQuiet]
  by_cases hlive : ∃ hs, c.cell = .live hs
  · obtain ⟨hs, hcell⟩ := hlive
    exact h.live rfl hquiet hcell hcell rfl rfl
  · rw [not_exists] at hlive
    exact h.dead rfl hquiet hlive hlive

theorem Scanned.step (h : Scanned c) {i : Nat} (hlinked : Linked site i c) (e : ConnEvent σ) :
    Scanned (connStep site c e) := by
  cases e with
  | others sys => exact ⟨h.serving, h.ended⟩
  | call e =>
      have hmoves := connStep_moves_free hlinked (.call e)
      -- without a state nothing more is looked up
      have hended : (∀ hs, c.cell ≠ .live hs) → Scanned (connStep site c (.call e)) := by
        intro hdead
        obtain ⟨hdead', acts, htrace, hquiet, -⟩ := hmoves.dead hdead
        exact h.dead htrace hquiet hdead hdead'
      cases hlinked with
      | @active hs hopen hcell harg _ hactive =>
          cases reaction hcell hopen harg hactive e with
          | torn acts _ htrace hquiet _ hdead => exact scanned_of_torn htrace hquiet hactive.1 hdead
          | arrives p _ _ hwaiting harrival =>
              obtain ⟨-, -, -, hnone⟩ := hactive.unanswered hwaiting
              cases harrival with
              | incomplete _ _ hcell' _ _ hsame =>
                  obtain ⟨q, htrace⟩ := hsame
                  exact h.live htrace (queued_quiet q) hcell hcell' rfl rfl
              | rejected _ hnull _ _ hopenings =>
                  refine ⟨fun hs' _ _ hlive => ?_, fun _ _ => ?_⟩
                  · cases hnull.symm.trans hlive
                  · rw [hopenings, hnone]
                    exact nofun
              | found _ _ _ _ _ _ _ hscanned => exact hscanned
          | ignores p _ _ heq =>
              rw [heq]
              exact h.congr rfl hcell hcell rfl rfl
          | counts _ _ _ heq =>
              rw [heq]
              exact h.congr rfl hcell rfl rfl rfl
          | sends n _ heq =>
              have htried := h.tried hcell hopen harg hactive e n
              rcases heq with heq | heq
              · rw [heq]
                exact htried
              · rw [heq]
                exact htried.output
      | closing _ hnull => exact hended (by simp [hnull])
      | ended _ hdead => exact hended hdead

theorem connection_scanned (site : Site σ) (sys : Sys σ) (es : List (WorldEvent σ)) (i : Nat) :
    Scanned (World.connection site sys es i) := by
  refine World.run_step_invariant (I := fun _ c => Scanned c) ?_ ?_ ?_ sys es i
  · exact fun _ _ => ⟨nofun, nofun⟩
  · intro i o addr sys
    rw [accept_eq]
    split
    · refine ⟨fun hs f ssi hlive hhandle => ?_, fun hdead => absurd rfl (hdead _)⟩
      obtain rfl := Cell.live.inj hlive
      cases hhandle
    · exact ⟨nofun, by simp⟩
  · exact fun i c e hlinked h => h.step hlinked e

section Sent

variable {sys : Sys σ} {es : List (WorldEvent σ)} {i : Nat} {data : List UInt8} {is09 : Bool}
  {start : Nat}

/-- A file that has been sent has been scanned, unless there was nothing to send of it. -/
theorem sent_tagCalls
    (hopened : .opened data is09 start true ∈ (World.connection site sys es i).pcb.trace)
    (heof : .eof ∈ (World.connection site sys es i).pcb.trace)
    (hsend : start < data.length ∨ data = []) :
    tagCalls (World.connection site sys es i).pcb.trace = fileTags data := by
  have hlinked := connection_linked site sys es i
  have hscanned := connection_scanned site sys es i
  generalize World.connection site sys es i = c at hopened heof hlinked hscanned ⊢
  obtain ⟨f, rfl, rfl, ⟨_, _, _, _, hno⟩ | ⟨hdead, _, hdone⟩⟩ := opened_cases hlinked hopened
  · exact absurd heof hno
  rcases hsend with hlt | hnil
  · exact hscanned.ended hdead heof _ (mem_openings.mp hopened) rfl hlt
  · obtain ⟨-, hnone⟩ := (hdone heof).empty (by rw [hnil]; exact Nat.zero_le _)
    rw [tagCalls_eq_nil hnone, hnil]
    rfl

/-- When a file has been sent, the tags that have been looked up are its leftmost tags if and only
if none of its tags is hidden. -/
theorem tags_looked_up_iff
    (hopened : .opened data is09 start true ∈ (World.connection site sys es i).pcb.trace)
    (heof : .eof ∈ (World.connection site sys es i).pcb.trace)
    (hsend : start < data.length ∨ data = []) :
    Leftmost IsTag 0 data (tagCalls (World.connection site sys es i).pcb.trace) ↔
      Unhidden data := by
  rw [sent_tagCalls hopened heof hsend]
  exact leftmost_reported_iff data

end Sent

/-! ## Two pages -/

theorem isTag_t : IsTag (chars "<!--#t-->") (chars "t") :=
  .intro isTagSpaces_nil isTagName_t isTagSpaces_nil

theorem IsTag.leadin {t name : List UInt8} (h : IsTag t name) : tagLeadIn <+: t := by
  cases h
  exact List.prefix_append _ _

/-- No tag begins where there is no lead-in. -/
theorem no_tag_of_leadin {bs : List UInt8} (hnot : ¬tagLeadIn <+: bs) :
    ∀ t name, IsTag t name → ¬t <+: bs :=
  fun _ _ htag hfront => hnot (htag.leadin.trans hfront)

/-- What follows a tag in both pages. -/
theorem leftmost_t (pos : Nat) :
    Leftmost IsTag pos (chars "<!--#t-->" ++ chars "y") [(pos + 9, chars "t")] :=
  .token isTag_t (.skip (no_tag_of_leadin (by decide)) (.nil _))

theorem tags_looked_up_trial :
    let trace := (World.connection trialSite trialSys
      [.accept 0 .willing,
        .call 0 (.data .willing 2920 (chars "GET /a.ssi HTTP/1.0\r\n\r\n") (by decide))] 0).pcb.trace
    tagCalls trace = [(10, chars "t")] ∧ Unhidden (chars "x<!--#t-->y") := by
  intro trace
  have hopened : .opened (chars "x<!--#t-->y") false 0 true ∈ trace := by decide +kernel
  have heof : .eof ∈ trace := by decide +kernel
  have hcalls : tagCalls trace = [(10, chars "t")] := by decide +kernel
  have hleftmost : Leftmost IsTag 0 (chars "x<!--#t-->y") (tagCalls trace) := by
    rw [hcalls]
    exact .skip (no_tag_of_leadin (by decide)) (leftmost_t 1)
  exact ⟨hcalls, (tags_looked_up_iff hopened heof (Or.inl (by decide))).mp hleftmost⟩

/-- A page with one more character in front of its tag. -/
def doubledSite : Site Unit :=
  { trialSite with
    root := [
      { name := chars "/a.ssi", data := chars "<<!--#t-->y", size_lt := by decide
        httpHeaderIncluded := true }] }

/-- The character that is no beginning of a tag hides the tag behind it. -/
theorem tag_hidden :
    let trace := (World.connection doubledSite trialSys
      [.accept 0 .willing,
        .call 0 (.data .willing 2920 (chars "GET /a.ssi HTTP/1.0\r\n\r\n") (by decide))] 0).pcb.trace
    .opened (chars "<<!--#t-->y") false 0 true ∈ trace ∧ .eof ∈ trace ∧ tagCalls trace = [] ∧
      Leftmost IsTag 0 (chars "<<!--#t-->y") [(10, chars "t")] :=
  ⟨by decide +kernel, by decide +kernel, by decide +kernel,
    .skip (no_tag_of_leadin (by decide)) (leftmost_t 1)⟩

end Meu1oARM
