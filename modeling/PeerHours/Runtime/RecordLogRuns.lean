import PeerHours.Runtime.RecordLog

/-!
# Runs of a record store

Whatever the order in which calls go on, the log holds the records of the calls that returned, in the order of the
calls and at the indexes that they returned, and a reader takes a prefix of it. A call that failed leaves no trace,
and no call waits for ever.
-/

namespace PeerHours.PeerRuntime

open Checked Json

variable {history : List JsonValue} {state : StoreState}

/-! ## Readers -/

/-- What a reader has taken is what the log holds up to there, and it never looks past the length of the core when it
was asked. -/
def Reads (log : List Block) : Reader → Prop
  | .read index length none => 0 ≤ index ∧ index.toNat < length ∧ length ≤ log.length
  | .read index length (some result) =>
      index < 0 ∨ 0 ≤ index ∧ length ≤ index.toNat ∧ result = .ok none ∨
        0 ≤ index ∧ index.toNat < length ∧ ∃ record, result = .ok (some record) ∧
          log[index.toNat]? = some (stringify record)
  | .readAll length stage => length ≤ log.length ∧ ∃ records : List JsonValue,
      log.take records.length = records.map stringify ∧
      (stage = .looking records ∧ records.length ≤ length ∨
        stage = .getting records ∧ records.length < length ∨
        stage = .settled (.ok records) ∧ records.length = length)

/-- A log that grew says the same. -/
theorem Reads.grow {log : List Block} {reader : Reader} (h : Reads log reader) (blocks : List Block) :
    Reads (log ++ blocks) reader := by
  cases reader with
  | read index length result =>
      cases result with
      | none =>
          obtain ⟨hindex, hless, hlength⟩ := h
          exact ⟨hindex, hless, by rw [List.length_append]; omega⟩
      | some result =>
          rcases h with hnegative | hpast | ⟨hindex, hless, record, hresult, hblock⟩
          · exact .inl hnegative
          · exact .inr (.inl hpast)
          · refine .inr (.inr ⟨hindex, hless, record, hresult, ?_⟩)
            rw [List.getElem?_append_left (List.getElem?_eq_some_iff.mp hblock).1]
            exact hblock
  | readAll length stage =>
      obtain ⟨hlength, records, htaken, hstage⟩ := h
      refine ⟨by rw [List.length_append]; omega, records, ?_, hstage⟩
      have hfits : records.length ≤ log.length := by
        rcases hstage with ⟨-, hle⟩ | ⟨-, hlt⟩ | ⟨-, heq⟩ <;> omega
      rw [List.take_append_of_le_length hfits, htaken]

/-! ## Every run -/

/-- What holds in every run of a store on a core with a past. -/
structure StoreInvariant (history : List JsonValue) (state : StoreState) : Prop where
  chained : Chained state
  logged : Logged history state
  reads : ∀ reader ∈ state.readers, Reads state.log reader

theorem AppendPhase.record?_of_landed? {phase : AppendPhase} {entry : Nat × JsonValue}
    (h : phase.landed? = some entry) : phase.record? = some entry.2 := by
  unfold AppendPhase.landed? at h
  split at h
  · cases h
    rfl
  · cases h
    rfl
  · cases h

/-- Every block of the log is the text of a record that can be read. -/
theorem StoreInvariant.readable (h : StoreInvariant history state)
    (hhistory : ∀ record ∈ history, WellFormed record) {index : Nat} {block : Block}
    (hblock : state.log[index]? = some block) :
    ∃ record, WellFormed record ∧ block = stringify record := by
  rw [h.logged.log] at hblock
  obtain ⟨record, hrecord, rfl⟩ := List.mem_map.mp (List.mem_of_getElem? hblock)
  refine ⟨record, ?_, rfl⟩
  rcases List.mem_append.mp hrecord with hpast | hlanded
  · exact hhistory record hpast
  · obtain ⟨entry, hentry, rfl⟩ := List.mem_map.mp hlanded
    obtain ⟨call, hcall, hadded⟩ := List.mem_filterMap.mp hentry
    exact (h.chained.normalized call hcall _ (AppendPhase.record?_of_landed? hadded)).2

/-- Readers do not touch the chain or the log. -/
theorem StoreInvariant.withReaders (h : StoreInvariant history state) {readers : List Reader}
    (hreads : ∀ reader ∈ readers, Reads state.log reader) :
    StoreInvariant history { state with readers := readers } where
  chained := ⟨h.chained.tail, h.chained.previous, h.chained.started, h.chained.normalized⟩
  logged := ⟨h.logged.index, h.logged.log, h.logged.indexes⟩
  reads := hreads

theorem StoreInvariant.addReader (h : StoreInvariant history state) {reader : Reader}
    (hreader : Reads state.log reader) : StoreInvariant history (state.addReader reader) :=
  h.withReaders fun found hfound ↦ by
    rcases List.mem_append.mp hfound with hkept | hnew
    · exact h.reads found hkept
    · rw [List.mem_singleton.mp hnew]
      exact hreader

theorem StoreInvariant.setReader (h : StoreInvariant history state) (position : Nat) {reader : Reader}
    (hreader : Reads state.log reader) : StoreInvariant history (state.setReader position reader) :=
  h.withReaders fun found hfound ↦ by
    rcases List.mem_or_eq_of_mem_set hfound with hkept | rfl
    · exact h.reads found hkept
    · exact hreader

/-- A new call keeps the invariant. -/
theorem StoreInvariant.call (h : StoreInvariant history state) {next : StoreState}
    (hcall : StoreState.Call state next) : StoreInvariant history next := by
  cases hcall with
  | @append value hvalue writable =>
      refine ⟨h.chained.append hvalue writable, h.logged.append value writable, ?_⟩
      have hsame : (state.append value writable).readers = state.readers ∧
          (state.append value writable).log = state.log := by
        unfold StoreState.append
        split <;> exact ⟨rfl, rfl⟩
      rw [hsame.1, hsame.2]
      exact h.reads
  | read index =>
      refine h.addReader ?_
      unfold StoreState.startRead
      split
      · exact .inl ‹_›
      · split
        · exact .inr (.inl ⟨by omega, ‹_›, rfl⟩)
        · exact ⟨by omega, by omega, Nat.le_refl _⟩
  | readAll =>
      exact h.addReader ⟨Nat.le_refl _, [], by simp, .inl ⟨rfl, Nat.zero_le _⟩⟩

/-- A pending call that goes on keeps the invariant. -/
theorem StoreInvariant.resume (h : StoreInvariant history state)
    (hhistory : ∀ record ∈ history, WellFormed record) {next : StoreState}
    (hresume : StoreState.Resume state next) : StoreInvariant history next := by
  cases hresume with
  | @proceeds position value record previous hcall hprevious writable =>
      have hturn := fun first earlier hfirst hearlier ↦
        @Chained.turn state h.chained position value record previous hcall hprevious first earlier hfirst
          hearlier
      unfold StoreState.afterWait
      split
      · exact ⟨h.chained.setCall hcall rfl rfl rfl rfl hturn, h.logged.setCall hcall rfl nofun, h.reads⟩
      · refine ⟨h.chained.setCall hcall rfl rfl rfl rfl hturn, h.logged.setCall hcall rfl ?_, h.reads⟩
        intro _ _ hphase
        exact (AppendPhase.appending.inj hphase).2.1.symm
  | @lands position value record index hcall =>
      have hchained := @Chained.setCall _ h.chained _ _ _ (.appending record index true) hcall rfl rfl rfl rfl
        fun first earlier hfirst hearlier ↦
          h.chained.started first position earlier _ hfirst hearlier hcall rfl
      refine ⟨⟨hchained.tail, hchained.previous, hchained.started, hchained.normalized⟩,
        h.logged.lands h.chained hcall hchained, fun reader hreader ↦ ?_⟩
      exact (h.reads reader hreader).grow _
  | @fails position value record index hcall message =>
      exact ⟨h.chained.setCall hcall rfl rfl rfl rfl fun first earlier hfirst hearlier ↦
          h.chained.started first position earlier _ hfirst hearlier hcall rfl,
        h.logged.setCall hcall rfl nofun, h.reads⟩
  | @resolves position value record index hcall =>
      exact ⟨h.chained.setCall hcall rfl rfl rfl rfl fun first earlier hfirst hearlier ↦
          h.chained.started first position earlier _ hfirst hearlier hcall rfl,
        h.logged.setCall hcall rfl nofun, h.reads⟩
  | @gets position index length block hreader hblock =>
      obtain ⟨hindex, hless, -⟩ := h.reads _ (List.mem_of_getElem? hreader)
      obtain ⟨record, hrecord, rfl⟩ := h.readable hhistory hblock
      refine h.setReader position (.inr (.inr ⟨hindex, hless, record, ?_, hblock⟩))
      rw [readBlock_stringify hrecord]
      rfl
  | @looks position length records hreader =>
      obtain ⟨hlength, taken, htaken, hstage⟩ := h.reads _ (List.mem_of_getElem? hreader)
      refine h.setReader position ⟨hlength, taken, htaken, ?_⟩
      rcases hstage with ⟨hlooking, hle⟩ | ⟨hgetting, -⟩ | ⟨hsettled, -⟩
      · obtain rfl := ReadAllStage.looking.inj hlooking
        unfold StoreState.nextIndex
        by_cases hless : records.length < length
        · rw [if_pos hless, if_neg (by omega)]
          exact .inr (.inl ⟨rfl, hless⟩)
        · rw [if_neg hless]
          exact .inr (.inr ⟨rfl, by omega⟩)
      · cases hgetting
      · cases hsettled
  | @getsNext position length records block hreader hblock =>
      obtain ⟨hlength, taken, htaken, hstage⟩ := h.reads _ (List.mem_of_getElem? hreader)
      obtain ⟨record, hrecord, rfl⟩ := h.readable hhistory hblock
      rcases hstage with ⟨hlooking, -⟩ | ⟨hgetting, hless⟩ | ⟨hsettled, -⟩
      · cases hlooking
      · obtain rfl := ReadAllStage.getting.inj hgetting
        rw [readBlock_stringify hrecord]
        refine h.setReader position ⟨hlength, records ++ [record], ?_, .inl ⟨rfl, ?_⟩⟩
        · rw [List.length_append, List.length_singleton, List.take_add_one, htaken, hblock,
            List.map_append]
          rfl
        · rw [List.length_append, List.length_singleton]
          omega
      · cases hsettled

theorem StoreInvariant.opened (history : List JsonValue) :
    StoreInvariant history (.opened history) where
  chained := ⟨fun _ h ↦ absurd h (Nat.not_lt_zero _), nofun, nofun, nofun⟩
  logged := ⟨nofun, by simp [StoreState.opened, StoreState.landed], by simp [StoreState.opened, StoreState.landed]⟩
  reads := nofun

/-- Every run keeps the invariant. -/
theorem StoreInvariant.run (hhistory : ∀ record ∈ history, WellFormed record) {next : StoreState}
    (h : StoreInvariant history state) (hrun : StoreState.Run state next) :
    StoreInvariant history next := by
  induction hrun with
  | refl => exact h
  | tail _ hstep ih =>
      rcases hstep with hcall | hresume
      · exact ih.call hcall
      · exact ih.resume hhistory hresume

/-- Nothing that was stored is lost, and a reader keeps its place. -/
structure Extends (state next : StoreState) : Prop where
  log : state.log <+: next.log
  readers : ∀ (position : Nat) (reader : Reader), state.readers[position]? = some reader →
    ∃ going, next.readers[position]? = some going ∧ going.request = reader.request

theorem Extends.refl (state : StoreState) : Extends state state :=
  ⟨List.prefix_refl _, fun _ reader hreader ↦ ⟨reader, hreader, rfl⟩⟩

theorem Extends.trans {next later : StoreState} (h : Extends state next) (hlater : Extends next later) :
    Extends state later := by
  refine ⟨h.log.trans hlater.log, fun position reader hreader ↦ ?_⟩
  obtain ⟨going, hgoing, hrequest⟩ := h.readers position reader hreader
  obtain ⟨last, hlast, hsame⟩ := hlater.readers position going hgoing
  exact ⟨last, hlast, hsame.trans hrequest⟩

theorem extends_of_call {next : StoreState} (h : StoreState.Call state next) : Extends state next := by
  cases h with
  | append _ writable =>
      unfold StoreState.append
      split <;> exact ⟨List.prefix_refl _, fun _ reader hreader ↦ ⟨reader, hreader, rfl⟩⟩
  | read | readAll =>
      refine ⟨List.prefix_refl _, fun position reader hreader ↦ ⟨reader, ?_, rfl⟩⟩
      have hbound := (List.getElem?_eq_some_iff.mp hreader).1
      exact (List.getElem?_append_left hbound).trans hreader

theorem extends_setReader {position : Nat} {old reader : Reader}
    (hold : state.readers[position]? = some old) (hrequest : reader.request = old.request) :
    Extends state (state.setReader position reader) := by
  refine ⟨List.prefix_refl _, fun other found hfound ↦ ?_⟩
  obtain ⟨hbound, -⟩ := List.getElem?_eq_some_iff.mp hold
  show ∃ going, (state.readers.set position reader)[other]? = some going ∧ _
  by_cases hsame : position = other
  · subst hsame
    cases hold.symm.trans hfound
    exact ⟨reader, List.getElem?_set_self hbound, hrequest⟩
  · exact ⟨found, by rw [List.getElem?_set_ne hsame, hfound], rfl⟩

theorem extends_of_resume {next : StoreState} (h : StoreState.Resume state next) :
    Extends state next := by
  cases h with
  | proceeds | fails | resolves =>
      exact ⟨List.prefix_refl _, fun _ reader hreader ↦ ⟨reader, hreader, rfl⟩⟩
  | lands => exact ⟨List.prefix_append _ _, fun _ reader hreader ↦ ⟨reader, hreader, rfl⟩⟩
  | gets hreader | looks hreader | getsNext hreader => exact extends_setReader hreader rfl

theorem extends_of_run {next : StoreState} (h : StoreState.Run state next) : Extends state next := by
  induction h with
  | refl => exact .refl state
  | tail _ hstep ih =>
      rcases hstep with hcall | hresume
      · exact ih.trans (extends_of_call hcall)
      · exact ih.trans (extends_of_resume hresume)

/-! ## Progress -/

/-- The number of steps that a call of `append` has before it. -/
def AppendPhase.work : AppendPhase → Nat
  | .waiting _ _ => 3
  | .appending _ _ false => 2
  | .appending _ _ true => 1
  | _ => 0

/-- The number of steps that a reader has before it. -/
def Reader.work : Reader → Nat
  | .read _ _ none => 1
  | .read _ _ (some _) => 0
  | .readAll length (.looking records) => 2 * (length - records.length) + 1
  | .readAll length (.getting records) => 2 * (length - records.length)
  | .readAll _ (.settled _) => 0

/-- The number of steps that the pending calls have before them. -/
def StoreState.work (state : StoreState) : Nat :=
  (state.calls.map (·.phase.work)).sum + (state.readers.map (·.work)).sum

theorem sum_map_set_lt {α : Type} (f : α → Nat) {values : List α} {position : Nat} {old new : α}
    (hold : values[position]? = some old) (hless : f new < f old) :
    ((values.set position new).map f).sum < (values.map f).sum := by
  induction values generalizing position with
  | nil => cases hold
  | cons first rest ih =>
      cases position with
      | zero =>
          obtain rfl : first = old := Option.some.inj hold
          simp only [List.set_cons_zero, List.map_cons, List.sum_cons]
          omega
      | succ position =>
          have hrest := @ih position hold
          simp only [List.set_cons_succ, List.map_cons, List.sum_cons]
          omega

theorem work_setCall {position : Nat} {value : JsValue} {old phase : AppendPhase}
    (hcall : state.calls[position]? = some ⟨value, old⟩) (hless : phase.work < old.work) :
    (state.setCall position value phase).work < state.work :=
  Nat.add_lt_add_right (sum_map_set_lt (fun call : AppendCall ↦ call.phase.work) hcall hless) _

theorem work_setReader {position : Nat} {old reader : Reader}
    (hreader : state.readers[position]? = some old) (hless : reader.work < old.work) :
    (state.setReader position reader).work < state.work :=
  Nat.add_lt_add_left (sum_map_set_lt Reader.work hreader hless) _

/-- Every step of a pending call is one step less before it. -/
theorem StoreInvariant.work_lt (h : StoreInvariant history state) {next : StoreState}
    (hresume : StoreState.Resume state next) : next.work < state.work := by
  cases hresume with
  | proceeds hcall _ writable =>
      refine work_setCall hcall ?_
      unfold StoreState.afterWait
      split
      · exact Nat.zero_lt_succ _
      · exact Nat.lt_succ_self _
  | lands hcall => exact @work_setCall _ _ _ _ (.appending _ _ true) hcall (Nat.lt_succ_self _)
  | fails hcall | resolves hcall => exact work_setCall hcall (Nat.zero_lt_succ _)
  | gets hreader => exact work_setReader hreader Nat.zero_lt_one
  | looks hreader =>
      refine work_setReader hreader ?_
      unfold StoreState.nextIndex
      split
      · split
        · exact Nat.zero_lt_succ _
        · exact Nat.lt_succ_self _
      · exact Nat.zero_lt_succ _
  | @getsNext position length records block hreader _ =>
      obtain ⟨-, taken, -, hstage⟩ := h.reads _ (List.mem_of_getElem? hreader)
      have hless : records.length < length := by
        rcases hstage with ⟨hlooking, -⟩ | ⟨hgetting, hless⟩ | ⟨hsettled, -⟩
        · cases hlooking
        · exact ReadAllStage.getting.inj hgetting ▸ hless
        · cases hsettled
      refine work_setReader hreader ?_
      cases readBlock block with
      | error message =>
          show 0 < 2 * (length - records.length)
          omega
      | ok record =>
          show 2 * (length - (records ++ [record]).length) + 1 < 2 * (length - records.length)
          rw [List.length_append, List.length_singleton]
          omega

/-- A reader returned or threw. -/
def Reader.settled : Reader → Bool
  | .read _ _ (some _) | .readAll _ (.settled _) => true
  | _ => false

/-- The first call that is not settled can go on, whatever became of those before it. -/
theorem StoreInvariant.call_goes_on (h : StoreInvariant history state)
    (hopen : ∃ call ∈ state.calls, call.phase.settled = false) :
    ∃ next, StoreState.Resume state next := by
  classical
  have hexists : ∃ (position : Nat) (call : AppendCall),
      state.calls[position]? = some call ∧ call.phase.settled = false := by
    obtain ⟨call, hmem, hcall⟩ := hopen
    obtain ⟨position, hposition⟩ := List.mem_iff_getElem?.mp hmem
    exact ⟨position, call, hposition, hcall⟩
  obtain ⟨⟨value, phase⟩, hcall, hphase⟩ := Nat.find_spec hexists
  cases phase with
  | waiting record previous =>
      refine ⟨_, .proceeds hcall (fun last hlast ↦ ?_) true⟩
      have hqueued := h.chained.previous _ _ _ _ hcall
      rw [Option.mem_def.mp hlast] at hqueued
      obtain ⟨hless, hflag, -⟩ := hqueued
      rw [StoreState.queued, List.getElem?_map, Option.map_eq_some_iff] at hflag
      obtain ⟨earlier, hearlier, -⟩ := hflag
      refine ⟨earlier, hearlier, Bool.not_eq_false _ ▸ fun hpending ↦ ?_⟩
      exact Nat.find_min hexists hless ⟨earlier, hearlier, hpending⟩
  | appending record index landed =>
      cases landed with
      | false => exact ⟨_, .lands hcall⟩
      | true => exact ⟨_, .resolves hcall⟩
  | rejected | resolved | failed => cases hphase

/-- A reader that is not settled can go on. -/
theorem StoreInvariant.reader_goes_on (h : StoreInvariant history state)
    (hopen : ∃ reader ∈ state.readers, reader.settled = false) :
    ∃ next, StoreState.Resume state next := by
  obtain ⟨reader, hmem, hpending⟩ := hopen
  obtain ⟨position, hreader⟩ := List.mem_iff_getElem?.mp hmem
  have hreads := h.reads reader hmem
  cases reader with
  | read index length result =>
      cases result with
      | none =>
          obtain ⟨-, hless, hlength⟩ := hreads
          exact ⟨_, .gets hreader (List.getElem?_eq_getElem (by omega))⟩
      | some result => cases hpending
  | readAll length stage =>
      cases stage with
      | looking records => exact ⟨_, .looks hreader⟩
      | getting records =>
          obtain ⟨hlength, taken, -, hstage⟩ := hreads
          have hless : records.length < length := by
            rcases hstage with ⟨hlooking, -⟩ | ⟨hgetting, hless⟩ | ⟨hsettled, -⟩
            · cases hlooking
            · exact ReadAllStage.getting.inj hgetting ▸ hless
            · cases hsettled
          exact ⟨_, .getsNext hreader (List.getElem?_eq_getElem (by omega))⟩
      | settled result => cases hpending

/-! ## Serialized appends -/

/-- The index and the record of a call that returned. -/
def AppendPhase.resolved? : AppendPhase → Option (Nat × JsonValue)
  | .resolved record index => some (index, record)
  | _ => none

/-- The entries that calls returned, in the order of the calls. -/
def StoreState.successes (state : StoreState) : List (Nat × JsonValue) :=
  state.calls.filterMap (·.phase.resolved?)

theorem AppendPhase.landed?_eq_resolved? {phase : AppendPhase} (h : phase.settled = true) :
    phase.landed? = phase.resolved? := by
  cases phase with
  | waiting | appending => cases h
  | _ => rfl

theorem AppendPhase.resolved?_of_not_started {phase : AppendPhase} (h : phase.started = false) :
    phase.resolved? = none := by
  cases phase with
  | rejected | waiting => rfl
  | _ => cases h

/-- At most one entry is in the log before its call returns, and it is the last one. -/
theorem StoreInvariant.landed_eq (h : StoreInvariant history state) :
    ∃ last, state.landed = state.successes ++ last ∧
      ((∀ call ∈ state.calls, call.phase.settled = true) → last = []) := by
  by_cases hopen : ∃ (position : Nat) (call : AppendCall), state.calls[position]? = some call ∧
      call.phase.settled = false ∧ call.phase.started = true
  · obtain ⟨position, call, hcall, hpending, hstarted⟩ := hopen
    refine ⟨call.phase.landed?.toList, ?_, fun hall ↦ ?_⟩
    · have hbefore : (state.calls.take position).filterMap (fun call ↦ call.phase.landed?) =
          (state.calls.take position).filterMap (fun call ↦ call.phase.resolved?) := by
        refine List.filterMap_congr fun earlier hmem ↦ AppendPhase.landed?_eq_resolved? ?_
        obtain ⟨first, hfirst⟩ := List.mem_iff_getElem?.mp hmem
        rw [List.getElem?_take] at hfirst
        split at hfirst
        · exact h.chained.started first position earlier _ ‹_› hfirst hcall hstarted
        · cases hfirst
      have hnone : call.phase.resolved? = none := by
        cases hphase : call.phase with
        | resolved => rw [hphase] at hpending; cases hpending
        | _ => rfl
      have hlanded : state.landed = _ := h.chained.filterMap_eq _
        (fun _ ↦ AppendPhase.landed?_of_not_started) hcall hpending
      have hresolved : state.successes = _ := h.chained.filterMap_eq _
        (fun _ ↦ AppendPhase.resolved?_of_not_started) hcall hpending
      rw [hlanded, hbefore, hresolved, hnone, Option.toList_none, List.append_nil]
    · rw [hall call (List.mem_of_getElem? hcall)] at hpending
      cases hpending
  · refine ⟨[], ?_, fun _ ↦ rfl⟩
    rw [List.append_nil]
    refine List.filterMap_congr fun call hmem ↦ ?_
    by_cases hsettled : call.phase.settled = true
    · exact AppendPhase.landed?_eq_resolved? hsettled
    · obtain ⟨position, hposition⟩ := List.mem_iff_getElem?.mp hmem
      have hwaits : call.phase.started = false := Bool.eq_false_iff.mpr fun hstarted ↦
        hopen ⟨position, call, hposition, Bool.eq_false_iff.mpr hsettled, hstarted⟩
      rw [AppendPhase.landed?_of_not_started hwaits, AppendPhase.resolved?_of_not_started hwaits]

/-- Calls return consecutive indexes, in the order of the calls. -/
theorem StoreInvariant.indexes (h : StoreInvariant history state) :
    state.successes.map Prod.fst = List.range' history.length state.successes.length := by
  obtain ⟨last, hlanded, -⟩ := h.landed_eq
  have hindexes := h.logged.indexes
  rw [hlanded, List.map_append, List.length_append, ← List.range'_append_1] at hindexes
  exact (List.append_inj hindexes (by simp)).1

/-- A call that returned finds its own record at its index, for ever. -/
theorem StoreInvariant.stored (h : StoreInvariant history state) {call : AppendCall}
    (hcall : call ∈ state.calls) {record : JsonValue} {index : Nat}
    (hphase : call.phase = .resolved record index) :
    state.log[index]? = some (stringify record) := by
  obtain ⟨last, hlanded, -⟩ := h.landed_eq
  have hmem : (index, record) ∈ state.landed :=
    List.mem_filterMap.mpr ⟨call, hcall, by rw [hphase]; rfl⟩
  obtain ⟨position, hposition⟩ := List.mem_iff_getElem?.mp hmem
  have hindex : history.length + position = index := by
    have hbound := (List.getElem?_eq_some_iff.mp hposition).1
    have hfirst := congrArg (fun indexes : List Nat ↦ indexes[position]?) h.logged.indexes
    rw [List.getElem?_map, hposition, List.getElem?_range' hbound, Nat.one_mul] at hfirst
    exact (Option.some.inj hfirst).symm
  rw [h.logged.log, List.getElem?_map, List.getElem?_append_right (by omega), List.getElem?_map,
    show index - history.length = position by omega, hposition]
  rfl

/-- What a record store promises in a state: every call that returned finds its own record at its index from then
on; the indexes are consecutive in the order of the calls, so that failed calls shift none; a settled store holds what
was returned and no more; no call waits for ever; and a reader returns a prefix of every later log, with every record
whose call had returned. -/
structure Serialized (history : List JsonValue) (state : StoreState) : Prop where
  own : ∀ call ∈ state.calls, ∀ record index, call.phase = .resolved record index →
    normalizeRecord call.value = .ok record ∧ readBlock (stringify record) = .ok record ∧
      ∀ later, StoreState.Run state later → later.log[index]? = some (stringify record)
  indexes : state.successes.map Prod.fst = List.range' history.length state.successes.length
  lossless : (∀ call ∈ state.calls, call.phase.settled = true) →
    state.log = (history ++ state.successes.map Prod.snd).map stringify
  unblocked : (∀ next, StoreState.Resume state next → next.work < state.work) ∧
    ((∀ next, ¬ StoreState.Resume state next) →
      (∀ call ∈ state.calls, call.phase.settled = true) ∧
        ∀ reader ∈ state.readers, reader.settled = true)
  readAll : ∀ later, StoreState.Run (state.addReader state.startReadAll) later → ∃ stage,
    later.readers[state.readers.length]? = some (.readAll state.log.length stage) ∧
      ∀ result, stage = .settled result → ∃ records, result = .ok records ∧
        records.map stringify <+: later.log ∧
        ∀ call ∈ state.calls, ∀ record index, call.phase = .resolved record index →
          records[index]? = some record
  read : ∀ (index : Nat) later, StoreState.Run (state.addReader (state.startRead index)) later →
    ∃ result, later.readers[state.readers.length]? = some (.read index state.log.length result) ∧
      ∀ call ∈ state.calls, ∀ record, call.phase = .resolved record index →
        ∀ settled, result = some settled → settled = .ok (some record)

/-- A reader that is added is found at its place in every later state. -/
theorem reader_of_run {reader : Reader} {later : StoreState}
    (hrun : StoreState.Run (state.addReader reader) later) :
    ∃ going, later.readers[state.readers.length]? = some going ∧ going.request = reader.request :=
  (extends_of_run hrun).readers _ reader List.getElem?_concat_length

/-- What was stored stays where it is. -/
theorem stored_of_run {later : StoreState} (hrun : StoreState.Run state later) {index : Nat}
    {block : Block} (hblock : state.log[index]? = some block) : later.log[index]? = some block := by
  obtain ⟨blocks, hlog⟩ := (extends_of_run hrun).log
  rw [← hlog, List.getElem?_append_left (List.getElem?_eq_some_iff.mp hblock).1, hblock]

/-- A call that returned made its record of its value, and the record can be read. -/
theorem StoreInvariant.own_record (h : StoreInvariant history state) {call : AppendCall}
    (hcall : call ∈ state.calls) {record : JsonValue} {index : Nat}
    (hphase : call.phase = .resolved record index) :
    normalizeRecord call.value = .ok record ∧ readBlock (stringify record) = .ok record := by
  obtain ⟨hnormal, hrecord⟩ := h.chained.normalized call hcall record (by rw [hphase]; rfl)
  exact ⟨hnormal, readBlock_stringify hrecord⟩

/-- When every call is settled, the log holds what the calls returned. -/
theorem StoreInvariant.lossless (h : StoreInvariant history state)
    (hsettled : ∀ call ∈ state.calls, call.phase.settled = true) :
    state.log = (history ++ state.successes.map Prod.snd).map stringify := by
  obtain ⟨last, hlanded, hnone⟩ := h.landed_eq
  rw [hnone hsettled, List.append_nil] at hlanded
  rw [h.logged.log, hlanded]

/-- A call that cannot go on is settled. -/
theorem StoreInvariant.settled_of_stuck (h : StoreInvariant history state)
    (hstuck : ∀ next, ¬ StoreState.Resume state next) :
    (∀ call ∈ state.calls, call.phase.settled = true) ∧
      ∀ reader ∈ state.readers, reader.settled = true := by
  constructor
  · intro call hcall
    rw [← Bool.not_eq_false]
    intro hopen
    obtain ⟨next, hnext⟩ := h.call_goes_on ⟨call, hcall, hopen⟩
    exact hstuck next hnext
  · intro reader hreader
    rw [← Bool.not_eq_false]
    intro hopen
    obtain ⟨next, hnext⟩ := h.reader_goes_on ⟨reader, hreader, hopen⟩
    exact hstuck next hnext

/-- A `readAll` returns a prefix of the log as long as the core was when it was called. -/
theorem StoreInvariant.readAll_result (h : StoreInvariant history state) {length : Nat}
    {result : Except String (List JsonValue)}
    (hreader : .readAll length (.settled result) ∈ state.readers) :
    ∃ records, result = .ok records ∧ records.length = length ∧
      records.map stringify <+: state.log := by
  obtain ⟨-, records, htaken, hstage⟩ := h.reads _ hreader
  rcases hstage with ⟨hlooking, -⟩ | ⟨hgetting, -⟩ | ⟨hsettled, hlength⟩
  · cases hlooking
  · cases hgetting
  · exact ⟨records, ReadAllStage.settled.inj hsettled, hlength, htaken ▸ List.take_prefix _ _⟩

/-- A record of the log is in every prefix that reaches so far. -/
theorem getElem?_of_written {records : List JsonValue} {log : List Block}
    (hstarts : records.map stringify <+: log) {index : Nat} {record : JsonValue}
    (hindex : index < records.length) (hblock : log[index]? = some (stringify record)) :
    records[index]? = some record := by
  obtain ⟨rest, rfl⟩ := hstarts
  rw [List.getElem?_append_left (by rwa [List.length_map]), List.getElem?_map,
    Option.map_eq_some_iff] at hblock
  obtain ⟨found, hfound, hsame⟩ := hblock
  rw [hfound, stringify_inj.mp hsame]

/-- Appends of a record store are serialized and lossless, in every run. -/
theorem record_store_serializes (hhistory : ∀ record ∈ history, WellFormed record)
    (hrun : StoreState.Run (.opened history) state) : Serialized history state := by
  have h : StoreInvariant history state := (StoreInvariant.opened history).run hhistory hrun
  refine ⟨fun call hcall record index hphase ↦ ?_, h.indexes, h.lossless,
    ⟨fun _ hnext ↦ h.work_lt hnext, h.settled_of_stuck⟩, fun later hlater ↦ ?_,
    fun index later hlater ↦ ?_⟩
  · obtain ⟨hnormal, hread⟩ := h.own_record hcall hphase
    exact ⟨hnormal, hread, fun later hlater ↦ stored_of_run hlater (h.stored hcall hphase)⟩
  · have hadded : StoreInvariant history (state.addReader state.startReadAll) := h.call .readAll
    obtain ⟨reader, hreader, hrequest⟩ := reader_of_run hlater
    cases reader with
    | read => cases hrequest
    | readAll length stage =>
        obtain rfl : length = state.log.length := congrArg Prod.snd hrequest
        refine ⟨stage, hreader, fun result hstage ↦ ?_⟩
        subst hstage
        obtain ⟨records, hresult, hlength, hstarts⟩ :=
          (hadded.run hhistory hlater).readAll_result (List.mem_of_getElem? hreader)
        refine ⟨records, hresult, hstarts, fun call hcall record index hphase ↦ ?_⟩
        have hblock := h.stored hcall hphase
        have hindex := (List.getElem?_eq_some_iff.mp hblock).1
        exact getElem?_of_written hstarts (by omega)
          (@stored_of_run (state.addReader state.startReadAll) _ hlater _ _ hblock)
  · have hadded : StoreInvariant history (state.addReader (state.startRead index)) :=
      h.call (.read index)
    obtain ⟨reader, hreader, hrequest⟩ := reader_of_run hlater
    cases reader with
    | readAll => cases hrequest
    | read asked length result =>
        obtain ⟨hasked, hlength⟩ := Prod.mk.inj hrequest
        obtain rfl : asked = index := Option.some.inj hasked
        obtain rfl : length = state.log.length := hlength
        refine ⟨result, hreader, fun call hcall record hphase settled hresult ↦ ?_⟩
        subst hresult
        have hblock := h.stored hcall hphase
        have hindex := (List.getElem?_eq_some_iff.mp hblock).1
        have hnow : later.log[index]? = some (stringify record) :=
          @stored_of_run (state.addReader (state.startRead index)) _ hlater _ _ hblock
        rcases (hadded.run hhistory hlater).reads _ (List.mem_of_getElem? hreader) with
          hnegative | ⟨-, hpast, -⟩ | ⟨-, -, found, hfound, hstored⟩
        · omega
        · omega
        · rw [Int.toNat_natCast, hnow, Option.some.injEq, stringify_inj] at hstored
          rw [hfound, hstored]

namespace Shelf

/-- A record of one property. -/
def note (text : String) : JsValue :=
  .obj true [("note", .str text)]

/-- A store on an empty core after three calls at once: the core failed for the first, the second had no finite
number, and the third stored its record. -/
def filled : StoreState where
  log := [stringify (note "b").json]
  appendTail := some 2
  calls := [⟨note "a", .failed (note "a").json "disk full"⟩,
    ⟨.num none, .rejected "A record store accepts only finite JSON values"⟩,
    ⟨note "b", .resolved (note "b").json 0⟩]
  readers := []

theorem note_wellFormed (text : String) : WellFormed (note text).json :=
  ⟨⟨List.nodup_singleton "note", List.pairwise_singleton _ _⟩, trivial, trivial⟩

theorem normalizeRecord_note (text : String) : normalizeRecord (note text) = .ok (note text).json :=
  (normalizeRecord_eq_ok (note_wellFormed text)).mpr ⟨rfl, rfl⟩

/-- The store before any of the calls went on. -/
def queued : StoreState where
  log := []
  appendTail := some 2
  calls := [⟨note "a", .waiting (note "a").json none⟩,
    ⟨.num none, .rejected "A record store accepts only finite JSON values"⟩,
    ⟨note "b", .waiting (note "b").json (some 0)⟩]
  readers := []

theorem queued_run : StoreState.Run (.opened []) queued := by
  have hfirst : StoreState.Run (.opened []) ((StoreState.opened []).append (note "a") true) :=
    .single (.inl (.append (note_wellFormed "a") true))
  rw [StoreState.append_of_normalized (normalizeRecord_note "a")] at hfirst
  have hsecond := hfirst.tail (.inl (@StoreState.Call.append _ (.num none) trivial true))
  rw [StoreState.append_of_rejected rfl] at hsecond
  have hthird := hsecond.tail (.inl (.append (note_wellFormed "b") true))
  rw [StoreState.append_of_normalized (normalizeRecord_note "b")] at hthird
  exact hthird

/-- The third call has its turn when the first failed. -/
theorem filled_run : StoreState.Run (.opened []) filled := by
  have hstarted := queued_run.tail (.inr (@StoreState.Resume.proceeds queued 0 _ _ none rfl nofun true))
  have hfailed := hstarted.tail (.inr (@StoreState.Resume.fails _ 0 _ _ 0 rfl "disk full"))
  have hturn := hfailed.tail (.inr (@StoreState.Resume.proceeds _ 2 _ _ (some 0) rfl
    (fun _ hprevious ↦ by cases hprevious; exact ⟨_, rfl, rfl⟩) true))
  have hlanded := hturn.tail (.inr (@StoreState.Resume.lands _ 2 _ _ 0 rfl))
  exact hlanded.tail (.inr (@StoreState.Resume.resolves _ 2 _ _ 0 rfl))

/-- The failed calls shift nothing: the record is at the first index. -/
theorem record_store_serializes_filled :
    Serialized [] filled ∧ filled.successes = [(0, (note "b").json)] :=
  ⟨record_store_serializes (fun _ h ↦ absurd h List.not_mem_nil) filled_run, rfl⟩

end Shelf

end PeerHours.PeerRuntime
