import ApueFormal.Printer.Http

/-!
# When printer_status returns

The search for the end of the header stops two bytes before the end of the data but
asks for more only at their end.  A header that is cut before its empty line makes
it run for ever.
-/

namespace ApueFormal.Printer

open Libc Program

/-- The header is found with the data at hand and at most one refill, or the data
end where more are asked for. -/
def HeaderArrives (text : Bytes) (size : Nat) (rest : List Bytes) : Prop :=
  (∃ digits body, HasHeader text digits body) ∨
    (∃ digits, LengthField text digits [] ∧ (rest = [] ∨ ∃ chunk later body,
      rest = chunk :: later ∧ size + chunk.length ≤ grown size iobufsz ∧ HeaderEnd chunk body)) ∨
    (NoLength text ∧ (rest = [] ∨ ∃ chunk later digits body,
      rest = chunk :: later ∧ size + chunk.length ≤ grown size iobufsz ∧
        HasHeader chunk digits body))

/-- Each read at the start of the buffer has a status line, or no status code at all and
can be logged, and the header of a success arrives. -/
def Returns : List Bytes → Prop
  | [] => True
  | data :: rest =>
    data.length ≤ iobufsz ∧ ((Logged data ∧ Returns rest) ∨
      ∃ code text, HasStatusLine data code text ∧ (isInfo code → Returns rest) ∧
        (isSuccess code → HeaderArrives text data.length rest))

/-- A read at the start of the buffer has a status that means success, its
`Content-Length` and a part of what follows, but not the end of the header. -/
def Stuck : List Bytes → Prop
  | [] => False
  | data :: rest =>
    data.length ≤ iobufsz ∧ ((Logged data ∧ Stuck rest) ∨
      ∃ code text, HasStatusLine data code text ∧ ((isInfo code ∧ Stuck rest) ∨
        (isSuccess code ∧ ∃ digits tail, LengthField text digits tail ∧ tail ≠ [] ∧
          ∀ body, ¬ HeaderEnd tail body)))

theorem HeaderArrives.turn {text : Bytes} {rest : List Bytes} {state : Channel} {size pos : Nat}
    (harrives : HeaderArrives text size rest) (hhead : AtHeader state pos size text)
    (hchunks : state.chunks = rest) (hending : state.ending ≤ 0) (jobid : Int)
    {next : Bool → StatusProg Bool}
    (hnext : ∀ success after, ∃ value final, Runs channel (next success) after (.ok value) final) :
    ∃ value final, Runs channel ((checkResponse jobid ⟨pos, pos, size, iobufsz⟩).bind next) state
      (.ok value) final := by
  have hgoal := @forward_returns Bool
  have hbody : ∀ (len : Int) need vars (after : Channel), ∃ value final, Runs channel
      ((getMoreIf need vars).bind fun ended =>
        (orOut (fun vars => ippStatus jobid vars len) ended).bind next) after
      (.ok value) final := by
    intro len need vars after
    refine hgoal.getMoreIf_any fun more after => ?_
    cases more with
    | none => exact hnext _ _
    | some vars => exact hgoal.ippStatus_any fun _ _ => hnext _ _
  obtain ⟨htext, hend, hfits, hdatsz, hbufsz⟩ := id hhead
  rcases harrives with ⟨digits, body, tail, hfield, htail⟩ | ⟨digits, hfield, hways⟩ |
    ⟨hnone, hways⟩
  · refine hgoal.checkResponse_field hhead hfield fun mem start hstart hsum => ?_
    exact hgoal.afterLength_here htail hstart (by dsimp only; omega) hdatsz.symm
      fun _ _ _ => hbody _ _ _ _
  · refine hgoal.checkResponse_field hhead hfield fun mem start hstart hsum => ?_
    obtain rfl : start = size := hsum
    rcases hways with rfl | ⟨chunk, later, body, rfl, hroom, htail⟩
    · exact @Forward.afterLength_end _ _ { state with mem } ((Cursor.fresh start).at start) _ _
        hgoal (Nat.le_refl _) hchunks hending _ fun _ => hnext _ _
    · rw [List.length_cons] at hend
      exact @Forward.afterLength_more _ _ { state with mem } ((Cursor.fresh start).at start) _ _
        _ _ _ hgoal (Nat.le_refl _) (by dsimp only [Cursor.at, Cursor.fresh]; omega) hchunks
        hbufsz.symm hroom htail _ fun _ _ _ _ _ => hgoal.ippStatus_any fun _ _ => hnext _ _
  · rw [checkResponse_eq, Prog.bind_assoc]
    rcases hways with rfl | ⟨chunk, later, digits, body, rfl, hroom, tail, hfield, htail⟩
    · exact hgoal.findLength_none (hnone.cons not_c_nul) htext hdatsz.symm (by omega)
        (hgoal.getMore_end hchunks hending fun _ => hnext _ _)
    · refine hgoal.findLength_more (hnone.cons not_c_nul) htext hdatsz.symm (by omega) hchunks
        hbufsz.symm (by rwa [hdatsz]) hfield fun after vars start hvars hafter hstart hsum => ?_
      exact hgoal.afterLength_here htail hstart (by omega) hvars fun _ _ _ => hbody _ _ _ _

/-! ## Headers that are cut -/

/-- Between the last two bytes and the end of the data nothing is read and nothing
is asked for. -/
theorem run_findEnd_stuck {vars : Cursor} (hlt : vars.i < vars.datsz)
    (hend : ¬ vars.i < vars.datsz - 2) (next : Option Cursor → StatusProg Bool) (state : Channel)
    (fuel : Nat) :
    run channel (fuel + 2) ((findEnd vars).bind next) state =
      run channel fuel ((findEnd vars).bind next) state := by
  have hneed : ¬ vars.i ≥ vars.datsz := Nat.not_le_of_lt hlt
  conv_lhs => rw [findEnd, Prog.iterate, Prog.loop_bind, run_loop, Prog.unroll, scanHeader,
    Prog.iterate]
  simp only [Prog.loop_bind, run_loop, Prog.unroll, if_neg hend, Prog.ret_bind, Prog.resume,
    getMoreIf_false vars hneed, Bool.false_eq_true, if_false]
  rfl

theorem findEnd_stuck {vars : Cursor} (hlt : vars.i < vars.datsz)
    (hend : ¬ vars.i < vars.datsz - 2) (next : Option Cursor → StatusProg Bool) (state : Channel)
    (fuel : Nat) : run channel fuel ((findEnd vars).bind next) state = none := by
  induction fuel using Nat.twoStepInduction with
  | zero => rfl
  | one => rfl
  | more fuel ih _ => rw [run_findEnd_stuck hlt hend, ih]

/-- The search for the end of the header does not stop when there is none. -/
theorem findEnd_diverges {tail : Bytes} {pos : Nat} {vars : Cursor} {state : Channel}
    (htail : Holds state.mem pos tail) (hsome : 0 < tail.length)
    (hnone : ∀ body, ¬ HeaderEnd tail body) (hdatsz : vars.datsz = state.datsz)
    (hend : pos + tail.length = state.datsz) (next : Option Cursor → StatusProg Bool)
    (outcome : Except Undefined Bool) (final : Channel) :
    ¬ Runs channel ((findEnd (vars.at pos)).bind next) state outcome final := by
  have hgoal := @forward_diverges Bool
  have havoids := (headerEnd_or_avoids tail).resolve_left (not_exists.mpr hnone)
  revert outcome final
  refine hgoal.turn _ _ _ _ ?_
  rw [Prog.unroll, Prog.bind_assoc]
  refine hgoal.scanHeader_none htail havoids hdatsz hend hsome fun stop hlt hlast => ?_
  have hneed : ¬ (vars.at stop).i ≥ (vars.at stop).datsz := by
    dsimp only [Cursor.at]
    omega
  rw [Prog.bind_assoc, getMoreIf_false _ hneed]
  rintro outcome final ⟨fuel, hrun⟩
  have hnever := @findEnd_stuck (vars.at stop) (by dsimp only [Cursor.at]; omega)
    (by dsimp only [Cursor.at]; omega) next state fuel
  cases hnever.symm.trans hrun

theorem returns_turn (jobid : Int) {chunks : List Bytes} (hreturns : Returns chunks)
    {state : Channel} (hchunks : state.chunks = chunks) (hending : state.ending ≤ 0)
    (hbufsz : state.bufsz = iobufsz) :
    ∃ success final, Runs channel (.loop (readResponse jobid) iobufsz .ret) state
      (.ok success) final := by
  have hgoal := @forward_returns Bool
  induction chunks generalizing state with
  | nil => exact hgoal.turn _ _ _ _ (hgoal.readResponse_end hchunks hending ⟨_, _, .ret _ _⟩)
  | cons data rest ih =>
    obtain ⟨hfits, hdata⟩ := hreturns
    have hpos : 0 < data.length := hdata.elim (fun hnone => hnone.1.noStatus.length_pos)
      fun ⟨_, _, hline, _⟩ => hline.length_pos
    refine hgoal.turn _ _ _ _ (hgoal.readResponse hchunks hpos hfits hbufsz fun mem hmem => ?_)
    rcases hdata with ⟨hnone, hrest⟩ | ⟨code, text, hline, hinfo, hheader⟩
    · exact hgoal.response_logged hnone hmem (ih hrest rfl hending hbufsz)
    · refine hgoal.response_line hline hmem ?_ ?_ ?_
      · exact fun hcode mem => ih (hinfo hcode) rfl hending hbufsz
      · exact fun _ _ mem => hgoal.op_any fun _ _ => ⟨_, _, .ret _ _⟩
      · exact fun hsuccess mem pos hhead => (hheader hsuccess).turn hhead rfl hending jobid
          fun success after => ⟨_, _, .ret success after⟩

theorem stuck_turn (jobid : Int) {chunks : List Bytes} (hstuck : Stuck chunks) {state : Channel}
    (hchunks : state.chunks = chunks) (hbufsz : state.bufsz = iobufsz)
    (outcome : Except Undefined Bool) (final : Channel) :
    ¬ Runs channel (.loop (readResponse jobid) iobufsz .ret) state outcome final := by
  have hgoal := @forward_diverges Bool
  revert outcome final
  induction chunks generalizing state with
  | nil => exact hstuck.elim
  | cons data rest ih =>
    obtain ⟨hfits, hdata⟩ := hstuck
    have hpos : 0 < data.length := hdata.elim (fun hnone => hnone.1.noStatus.length_pos)
      fun ⟨_, _, hline, _⟩ => hline.length_pos
    refine hgoal.turn _ _ _ _ (hgoal.readResponse hchunks hpos hfits hbufsz fun mem hmem => ?_)
    rcases hdata with ⟨hnone, hrest⟩ | ⟨code, text, hline, hcases⟩
    · exact hgoal.response_logged hnone hmem (ih hrest rfl hbufsz)
    · refine hgoal.response_line hline hmem ?_ ?_ ?_
      · intro hcode mem
        rcases hcases with ⟨_, hrest⟩ | ⟨hsuccess, _⟩
        · exact ih hrest rfl hbufsz
        · exact absurd hsuccess (not_isSuccess_of_isInfo hcode)
      · intro hinfo hsuccess
        exact absurd hcases (by rintro (⟨hcode, _⟩ | ⟨hcode, _⟩) <;> contradiction)
      · intro hsuccess mem pos hhead
        rcases hcases with ⟨hcode, _⟩ | ⟨_, digits, tail, hfield, hsome, hnone⟩
        · exact absurd hsuccess (not_isSuccess_of_isInfo hcode)
        · refine hgoal.checkResponse_field hhead hfield fun mem start hstart hsum => ?_
          have hlong := List.length_pos_iff.mpr hsome
          unfold afterLength
          rw [Prog.bind_assoc, getMoreIf_false _ (by dsimp only [Cursor.at, Cursor.fresh]; omega),
            Prog.ret_bind, orOut, Prog.bind_assoc]
          exact findEnd_diverges hstart hlong hnone rfl (by dsimp only; omega) _

/-- `printer_status` returns when the header of a success arrives, and it never does
when the header is cut before its end. -/
theorem printerStatus_returns (jobid : Int) (mem : Nat → Byte) {chunks : List Bytes} {ending : Int}
    (hending : ending ≤ 0) :
    (Returns chunks → ∃ success final, Runs channel (printerStatus jobid)
      (.start mem chunks ending) (.ok success) final) ∧
    (Stuck chunks → ¬ ∃ outcome final, Runs channel (printerStatus jobid)
      (.start mem chunks ending) outcome final) := by
  constructor
  · exact fun hreturns => returns_turn jobid hreturns rfl hending rfl
  · rintro hstuck ⟨outcome, final, hruns⟩
    exact stuck_turn jobid hstuck rfl rfl outcome final hruns

theorem returns_samples : Returns [badResponse, goResponse.text, okResponse.text] := by
  refine ⟨by decide +kernel, .inl ⟨badResponse_logged, by decide +kernel, .inr
    ⟨_, _, goResponse.statusLine, fun _ => ?_, ?_⟩⟩⟩
  · refine ⟨by decide +kernel, .inr ⟨_, _, okResponse.statusLine, fun _ => trivial, fun _ => ?_⟩⟩
    obtain ⟨digits, _, hheader⟩ := HttpResponse.header okResponse_hasLength
    exact .inl ⟨digits, _, hheader⟩
  · exact fun hcode => absurd hcode (by decide +kernel)

/-- What follows the status line when the header is cut before its empty line. -/
def cutHeader : Bytes := 10 :: (ascii "Content-Length:" ++ ([32] ++ ([56] ++ [13, 10])))

theorem stuck_cut : Stuck [okResponse.text.take 36] := by
  have hname : (ascii "Content-Length:").length = 15 := by decide +kernel
  refine ⟨by decide +kernel, .inr ⟨ascii "200", cutHeader, ?_, .inr ⟨?_, [56], [10], ?_, ?_, ?_⟩⟩⟩
  · exact ⟨ascii "HTTP/1.1", [32], 32, ascii "OK", 13, by decide +kernel, by decide +kernel,
      List.forall_mem_singleton.mpr rfl, by decide +kernel, rfl, by decide +kernel, rfl⟩
  · decide +kernel
  · exact ⟨[10], ascii "Content-Length:", [32], 13, rfl, ⟨by decide +kernel, trivial⟩,
      ⟨hname, by decide +kernel⟩, List.forall_mem_singleton.mpr rfl,
      List.forall_mem_singleton.mpr rfl, rfl, fun hnil => by cases hnil⟩
  · exact List.cons_ne_nil _ _
  · rintro body ⟨between, heq, _⟩
    have hlength := congrArg List.length heq
    simp only [List.length_append, List.length_singleton, length_blankLine] at hlength
    omega

theorem printerStatus_returns_sample : (∃ success final, Runs channel (printerStatus 7)
      (.start (fun _ => 0) [badResponse, goResponse.text, okResponse.text] 0) (.ok success)
        final) ∧
    ¬ ∃ outcome final, Runs channel (printerStatus 7)
      (.start (fun _ => 0) [okResponse.text.take 36] 0) outcome final :=
  ⟨(printerStatus_returns 7 (fun _ => 0) (Int.le_refl 0)).1 returns_samples,
    (printerStatus_returns 7 (fun _ => 0) (Int.le_refl 0)).2 stuck_cut⟩

/-- When the header is cut before its empty line, `printer_status` does not return. -/
theorem cut_header_diverges : ¬ ∃ outcome final, Runs channel (printerStatus 7)
      (.start (fun _ => 0) [okResponse.text.take 36] 0) outcome final := by
  rintro ⟨outcome, final, hruns⟩
  exact stuck_turn 7 stuck_cut rfl rfl outcome final hruns

end ApueFormal.Printer
