import Unwinding.Cursor
import Unwinding.Proofs.Outcome

/-!
# A cursor answers like one without a memory

A cursor keeps the frame it looked up. A position keeps only the registers and
whether their address is exact, and looks its frame up anew for each request.
What a cursor remembers is always what it would find again, so that the two
give the same answers, whatever they are asked and in whatever order. What a
cursor promises about failures and about the end of the stack is then read off
the position, where a request that fails changes nothing.
-/

namespace Unwinding

variable {arch : Arch} {program : Program}

namespace Cursor

/-- What a cursor can be asked. -/
inductive Request (arch : Arch) where
  | procInfo
  | frameAddress
  | lookupPc
  | step
  | reset (file : RegisterFile arch)

inductive Answer where
  | procInfo (result : Except StepError (Option ProcInfo))
  | frameAddress (result : Except StepError (Option Word))
  | lookupPc (pc : Word)
  | step (result : Except StepError StepResult)
  | reset

/-- The result of a walk, and the cursor it leaves. -/
def Walk.outcome {α : Type} (walk : Walk arch α) (program : Program) (cursor : Cursor arch) :
    Except StepError α × Cursor arch :=
  match walk program cursor with
  | .ok value cursor => (.ok value, cursor)
  | .error error cursor => (.error error, cursor)

def perform (program : Program) (cursor : Cursor arch) : Request arch → Answer × Cursor arch
  | .procInfo => (procInfo.outcome program cursor).map .procInfo id
  | .frameAddress => (frameAddress.outcome program cursor).map .frameAddress id
  | .lookupPc => (.lookupPc cursor.lookupPc, cursor)
  | .step => (step.outcome program cursor).map .step id
  | .reset file => (.reset, start file)

/-- The answers to requests in turn, and the state in which they leave what
answers them. -/
def serve {σ : Type} (perform : σ → Request arch → Answer × σ) (s : σ) :
    List (Request arch) → List Answer × σ
  | [] => ([], s)
  | request :: requests =>
    let later := serve perform (perform s request).2 requests
    ((perform s request).1 :: later.1, later.2)

/-- Servers that stay related through every request give the same answers. -/
theorem serve_related {σ τ : Type} {perform : σ → Request arch → Answer × σ}
    {perform' : τ → Request arch → Answer × τ} {related : σ → τ → Prop}
    (kept : ∀ s t, related s t → ∀ request, (perform s request).1 = (perform' t request).1 ∧
      related (perform s request).2 (perform' t request).2)
    {s : σ} {t : τ} (h : related s t) (requests : List (Request arch)) :
    (serve perform s requests).1 = (serve perform' t requests).1 ∧
      related (serve perform s requests).2 (serve perform' t requests).2 := by
  induction requests generalizing s t with
  | nil => exact ⟨rfl, h⟩
  | cons request requests ih =>
    obtain ⟨hanswer, hnext⟩ := kept s t h request
    obtain ⟨hanswers, hlast⟩ := ih hnext
    refine ⟨?_, hlast⟩
    simp only [serve, hanswer, hanswers]

end Cursor

open Cursor (Request Answer serve)

/-- Where a walk stands. -/
structure Position (arch : Arch) where
  file : RegisterFile arch
  /-- The instruction pointer is no return address. -/
  exactIp : Bool
  deriving Repr, DecidableEq

namespace Position

/-- The first position of a walk. -/
def start (file : RegisterFile arch) : Position arch := ⟨file, true⟩

section

variable (program : Program) (position : Position arch)

def lookupPc : Word := if position.exactIp then position.file.ip else position.file.ip - 1

def frame : Except StepError (Option Frame) :=
  if position.file.ip = 0 then .ok none else program.locate arch position.lookupPc

def procInfo : Except StepError (Option ProcInfo) :=
  return (← position.frame program).map (·.info)

def frameAddress : Except StepError (Option Word) := do
  match ← position.frame program with
  | none => return none
  | some frame => return some (← frame.row.frameAddress program.space position.file)

/-- Where the caller stands. -/
def caller : Except StepError (Option (Position arch)) := do
  match ← position.frame program with
  | none => return none
  | some frame =>
    return some ⟨← frame.row.apply program.space position.file, frame.info.signalFrame⟩

def step : Except StepError StepResult × Position arch :=
  match position.caller program with
  | .error error => (.error error, position)
  | .ok none => (.ok .endOfStack, position)
  | .ok (some next) => (.ok (if next.file.ip = 0 then .endOfStack else .stepped), next)

def perform : Request arch → Answer × Position arch
  | .procInfo => (.procInfo (position.procInfo program), position)
  | .frameAddress => (.frameAddress (position.frameAddress program), position)
  | .lookupPc => (.lookupPc position.lookupPc, position)
  | .step => (position.step program).map .step id
  | .reset file => (.reset, start file)

end

variable {position next : Position arch} {result : Except StepError StepResult}

theorem procInfo_eq : position.procInfo program = (position.frame program).map (·.map (·.info)) :=
  Outcome.bind_pure_eq_map _ _

theorem step_of_lost {error : StepError} (h : position.frame program = .error error) :
    position.step program = (.error error, position) := by
  unfold step caller
  rw [h]
  rfl

theorem step_of_no_frame (h : position.frame program = .ok none) :
    position.step program = (.ok .endOfStack, position) := by
  unfold step caller
  rw [h]
  rfl

theorem caller_of_frame {frame : Frame} (h : position.frame program = .ok (some frame)) :
    position.caller program = (frame.row.apply program.space position.file).map fun file =>
      some ⟨file, frame.info.signalFrame⟩ := by
  unfold caller
  rw [h]
  exact Outcome.bind_pure_eq_map _ _

theorem step_of_frame {frame : Frame} (h : position.frame program = .ok (some frame)) :
    position.step program =
      match frame.row.apply program.space position.file with
      | .error error => (.error error, position)
      | .ok file => (.ok (if file.ip = 0 then .endOfStack else .stepped),
          ⟨file, frame.info.signalFrame⟩) := by
  unfold step
  rw [caller_of_frame h]
  cases frame.row.apply program.space position.file <;> rfl

theorem step_of_error {error : StepError} (h : position.step program = (.error error, next)) :
    next = position ∧ next.step program = (.error error, next) := by
  have hsame : next = position := by
    unfold step at h
    split at h
    · exact (Prod.mk.inj h).2.symm
    · cases (Prod.mk.inj h).1
    · cases (Prod.mk.inj h).1
  subst hsame
  exact ⟨rfl, h⟩

theorem step_of_ip_zero (h : position.file.ip = 0) :
    position.step program = (.ok .endOfStack, position) :=
  step_of_no_frame (if_pos h)

theorem step_of_ended (h : position.step program = (.ok .endOfStack, next)) :
    next.step program = (.ok .endOfStack, next) := by
  have hstep := h
  unfold step at h
  split at h
  · cases (Prod.mk.inj h).1
  · obtain rfl := (Prod.mk.inj h).2
    exact hstep
  · rename_i caller _
    obtain ⟨hresult, rfl⟩ := Prod.mk.inj h
    apply step_of_ip_zero
    by_cases hip : caller.file.ip = 0
    · exact hip
    · rw [if_neg hip] at hresult
      cases hresult

/-- A step that leaves the position where it is has the same result whenever it
is taken again. -/
theorem serve_of_rest (h : position.step program = (result, position))
    {requests : List (Request arch)} (hreset : ∀ file, Request.reset file ∉ requests) :
    (serve (perform program) position requests).2 = position ∧
      ∀ answer, Answer.step answer ∈ (serve (perform program) position requests).1 →
        answer = result := by
  induction requests with
  | nil => exact ⟨rfl, fun _ hmem => nomatch hmem⟩
  | cons request requests ih =>
    obtain ⟨hlast, hanswers⟩ := ih fun file hmem => hreset file (List.mem_cons_of_mem _ hmem)
    have hkept : (perform program position request).2 = position ∧
        ∀ answer, Answer.step answer = (perform program position request).1 →
          answer = result := by
      cases request with
      | step =>
        simp only [perform, h]
        exact ⟨rfl, fun answer heq => Answer.step.inj heq⟩
      | reset file => exact absurd List.mem_cons_self (hreset file)
      | _ => exact ⟨rfl, fun answer heq => nomatch heq⟩
    obtain ⟨hnext, hanswer⟩ := hkept
    simp only [serve, hnext]
    refine ⟨hlast, fun answer hmem => ?_⟩
    rcases List.mem_cons.mp hmem with heq | hmem
    · exact hanswer answer heq
    · exact hanswers answer hmem

end Position

namespace Cursor

def position (cursor : Cursor arch) : Position arch := ⟨cursor.file, cursor.exactIp⟩

theorem position_file (cursor : Cursor arch) : cursor.position.file = cursor.file := rfl

/-- What the cursor remembers is what it would find. -/
def Knows (program : Program) (cursor : Cursor arch) : Prop :=
  ∀ frame, cursor.frame = some frame → cursor.position.frame program = .ok (some frame)

theorem knows_of_unlooked {cursor : Cursor arch} (h : cursor.frame = none) :
    cursor.Knows program := by
  intro frame hframe
  rw [h] at hframe
  cases hframe

/-- The cursor after a look for its frame, which it remembers if there is one. -/
def looked (cursor : Cursor arch) : Except StepError (Option Frame) → Cursor arch
  | .ok frame => { cursor with frame }
  | .error _ => cursor

variable {cursor : Cursor arch}

theorem position_looked (found : Except StepError (Option Frame)) :
    (cursor.looked found).position = cursor.position := by
  cases found <;> rfl

theorem looked_file (found : Except StepError (Option Frame)) :
    (cursor.looked found).file = cursor.file := by
  cases found <;> rfl

theorem Knows.looked (h : cursor.Knows program) :
    (cursor.looked (cursor.position.frame program)).Knows program := by
  intro frame hframe
  rw [position_looked]
  cases hfound : cursor.position.frame program with
  | error error =>
    rw [hfound] at hframe
    rw [← hfound]
    exact h frame hframe
  | ok found =>
    rw [hfound] at hframe
    exact congrArg Except.ok hframe

theorem Walk.outcome_bind {α β : Type} (walk : Walk arch α) (rest : α → Walk arch β) :
    Walk.outcome (walk >>= rest) program cursor =
      match walk.outcome program cursor with
      | (.ok value, cursor) => (rest value).outcome program cursor
      | (.error error, cursor) => (.error error, cursor) := by
  unfold outcome
  change (match EStateM.bind (walk program) (fun value => rest value program) cursor with
    | .ok value cursor => (Except.ok value, cursor)
    | .error error cursor => (.error error, cursor)) = _
  unfold EStateM.bind
  cases walk program cursor <;> rfl

@[simp] theorem outcome_attempt {α : Type} (result : Except StepError α) :
    (attempt result).outcome program cursor = (result, cursor) := by
  cases result <;> rfl

@[simp] theorem outcome_pure {α : Type} (value : α) :
    Walk.outcome (pure value) program cursor = (.ok value, cursor) := rfl

@[simp] theorem outcome_get : Walk.outcome get program cursor = (.ok cursor, cursor) := rfl

@[simp] theorem outcome_read : Walk.outcome read program cursor = (.ok program, cursor) := rfl

@[simp] theorem outcome_set (next : Cursor arch) :
    Walk.outcome (set next) program cursor = (.ok (), next) := rfl

theorem current_known {frame : Frame} (h : cursor.frame = some frame) :
    current.outcome program cursor = (.ok (some frame), cursor) := by
  simp only [current, Walk.outcome_bind, outcome_get, h, outcome_pure]

theorem current_unknown (h : cursor.frame = none) :
    current.outcome program cursor =
      (cursor.position.frame program, cursor.looked (cursor.position.frame program)) := by
  simp only [current, Walk.outcome_bind, outcome_get, h]
  by_cases hip : cursor.file.ip = 0
  · have hframe : cursor.position.frame program = .ok none := if_pos hip
    obtain ⟨file, exactIp, _⟩ := cursor
    subst h
    rw [if_pos hip, hframe]
    rfl
  · have hframe : cursor.position.frame program = program.locate arch cursor.lookupPc := if_neg hip
    rw [if_neg hip, hframe]
    simp only [Walk.outcome_bind, outcome_read, outcome_attempt, outcome_set, outcome_pure]
    cases program.locate arch cursor.lookupPc <;> rfl

theorem current_outcome (h : cursor.Knows program) :
    current.outcome program cursor =
      (cursor.position.frame program, cursor.looked (cursor.position.frame program)) := by
  cases hframe : cursor.frame with
  | none => exact current_unknown hframe
  | some frame =>
    rw [current_known hframe, h frame hframe]
    obtain ⟨file, exactIp, _⟩ := cursor
    subst hframe
    rfl

theorem procInfo_outcome (h : cursor.Knows program) :
    procInfo.outcome program cursor =
      (cursor.position.procInfo program, cursor.looked (cursor.position.frame program)) := by
  simp only [procInfo, Walk.outcome_bind, current_outcome h, outcome_pure, Position.procInfo]
  cases cursor.position.frame program <;> rfl

theorem frameAddress_outcome (h : cursor.Knows program) :
    frameAddress.outcome program cursor =
      (cursor.position.frameAddress program, cursor.looked (cursor.position.frame program)) := by
  simp only [frameAddress, Walk.outcome_bind, current_outcome h, Position.frameAddress]
  cases cursor.position.frame program with
  | error error => rfl
  | ok found =>
    cases found with
    | none => rfl
    | some frame =>
      simp only [Walk.outcome_bind, outcome_read, outcome_get, outcome_attempt, outcome_pure]
      rw [looked_file]
      change _ = (frame.row.frameAddress program.space cursor.file >>= fun address =>
        .ok (some address), _)
      cases frame.row.frameAddress program.space cursor.file <;> rfl

/-- The cursor stands at a position, and remembers nothing that is not found
there. -/
structure At (program : Program) (cursor : Cursor arch) (position : Position arch) : Prop where
  knows : cursor.Knows program
  stands : cursor.position = position

variable {position : Position arch}

theorem at_start (file : RegisterFile arch) : (start file).At program (Position.start file) :=
  ⟨knows_of_unlooked rfl, rfl⟩

theorem At.looked (h : cursor.At program position) :
    (cursor.looked (position.frame program)).At program position := by
  obtain ⟨hknows, rfl⟩ := h
  exact ⟨hknows.looked, position_looked _⟩

theorem At.frame_of_procInfo (h : cursor.At program position) {info : ProcInfo}
    (hinfo : (procInfo.outcome program cursor).1 = .ok (some info)) :
    ∃ frame, position.frame program = .ok (some frame) ∧ frame.info = info := by
  obtain ⟨hknows, rfl⟩ := h
  rw [procInfo_outcome hknows, Position.procInfo_eq] at hinfo
  obtain ⟨found, hframe, hsome⟩ := Outcome.map_eq_ok.mp hinfo
  obtain ⟨frame, rfl, hsame⟩ := Option.map_eq_some_iff.mp hsome
  exact ⟨frame, hframe, hsame⟩

theorem At.step (h : cursor.At program position) :
    (step.outcome program cursor).1 = (position.step program).1 ∧
      (step.outcome program cursor).2.At program (position.step program).2 := by
  have hlooked := h.looked
  obtain ⟨hknows, rfl⟩ := h
  simp only [step, Walk.outcome_bind, current_outcome hknows]
  cases hframe : cursor.position.frame program with
  | error error =>
    rw [hframe] at hlooked
    rw [Position.step_of_lost hframe]
    exact ⟨rfl, hlooked⟩
  | ok found =>
    rw [hframe] at hlooked
    cases found with
    | none =>
      rw [Position.step_of_no_frame hframe]
      exact ⟨rfl, hlooked⟩
    | some frame =>
      rw [Position.step_of_frame hframe]
      simp only [Walk.outcome_bind, outcome_read, outcome_get, outcome_attempt, looked_file]
      rw [position_file]
      cases hfile : frame.row.apply program.space cursor.file with
      | error error => exact ⟨rfl, hlooked⟩
      | ok file => exact ⟨rfl, knows_of_unlooked rfl, rfl⟩

/-- Every request is answered as it would be at the position, and moves the
cursor as it moves the position. -/
theorem At.perform (h : cursor.At program position) (request : Request arch) :
    (cursor.perform program request).1 = (position.perform program request).1 ∧
      (cursor.perform program request).2.At program (position.perform program request).2 := by
  cases request with
  | procInfo =>
    have houtcome := procInfo_outcome h.knows
    rw [h.stands] at houtcome
    simp only [Cursor.perform, houtcome]
    exact ⟨rfl, h.looked⟩
  | frameAddress =>
    have houtcome := frameAddress_outcome h.knows
    rw [h.stands] at houtcome
    simp only [Cursor.perform, houtcome]
    exact ⟨rfl, h.looked⟩
  | lookupPc =>
    obtain ⟨hknows, rfl⟩ := h
    exact ⟨rfl, hknows, rfl⟩
  | step =>
    obtain ⟨hresult, hnext⟩ := h.step
    exact ⟨congrArg Answer.step hresult, hnext⟩
  | reset file => exact ⟨rfl, at_start file⟩

theorem At.serve (h : cursor.At program position) (requests : List (Request arch)) :
    (Cursor.serve (Cursor.perform program) cursor requests).1 =
        (Cursor.serve (Position.perform program) position requests).1 ∧
      (Cursor.serve (Cursor.perform program) cursor requests).2.At program
        (Cursor.serve (Position.perform program) position requests).2 :=
  serve_related (fun _ _ h request => h.perform request) h requests

/-- How a cursor came to the frame it stands on. -/
inductive Arrival where
  | begun
  /-- From a frame about whose function this is known. -/
  | left (info : ProcInfo)

/-- The frame is the first one, or a signal entered the one before it. -/
def Arrival.exact : Arrival → Bool
  | begun => true
  | left info => info.signalFrame

/-- How the cursor came to the frame on which a request leaves it. -/
def arrive (program : Program) (cursor : Cursor arch) (arrival : Arrival) : Request arch → Arrival
  | .step =>
    match (procInfo.outcome program cursor).1, (step.outcome program cursor).1 with
    | .ok (some info), .ok _ => .left info
    | _, _ => arrival
  | .reset _ => .begun
  | _ => arrival

/-- How a cursor came to the frame on which requests in turn leave it. -/
def arrival (program : Program) (cursor : Cursor arch) (came : Arrival) :
    List (Request arch) → Arrival
  | [] => came
  | request :: requests =>
    arrival program (cursor.perform program request).2 (cursor.arrive program came request) requests

theorem At.arrive (h : cursor.At program position) {came : Arrival}
    (hexact : position.exactIp = came.exact) (request : Request arch) :
    (position.perform program request).2.exactIp = (cursor.arrive program came request).exact := by
  cases request with
  | step =>
    have hinfo := congrArg Prod.fst (procInfo_outcome h.knows)
    have hresult := h.step.1
    rw [h.stands] at hinfo
    simp only [Cursor.arrive, hinfo, hresult, Position.perform]
    cases hframe : position.frame program with
    | error error =>
      rw [Position.step_of_lost hframe, Position.procInfo_eq, hframe]
      exact hexact
    | ok found =>
      rw [Position.procInfo_eq, hframe]
      cases found with
      | none =>
        rw [Position.step_of_no_frame hframe]
        exact hexact
      | some frame =>
        rw [Position.step_of_frame hframe]
        cases frame.row.apply program.space position.file with
        | error error => exact hexact
        | ok file => rfl
  | reset file => rfl
  | _ => exact hexact

theorem At.arrival (h : cursor.At program position) {came : Arrival}
    (hexact : position.exactIp = came.exact) (requests : List (Request arch)) :
    (Cursor.serve (Position.perform program) position requests).2.exactIp =
      (cursor.arrival program came requests).exact := by
  induction requests generalizing cursor position came with
  | nil => exact hexact
  | cons request requests ih => exact ih (h.perform request).2 (h.arrive hexact request)

/-- Until the cursor is reset, it stays where it is and every step has the same
result. -/
def Stays (program : Program) (cursor : Cursor arch) (result : Except StepError StepResult) :
    Prop :=
  ∀ requests : List (Request arch), (∀ file, Request.reset file ∉ requests) →
    (serve (perform program) cursor requests).2.position = cursor.position ∧
      ∀ answer, Answer.step answer ∈ (serve (perform program) cursor requests).1 → answer = result

theorem At.stays (h : cursor.At program position) {result : Except StepError StepResult}
    (hstep : position.step program = (result, position)) : cursor.Stays program result := by
  intro requests hreset
  obtain ⟨hanswers, hlast⟩ := h.serve requests
  obtain ⟨hsame, hresults⟩ := Position.serve_of_rest hstep hreset
  rw [hlast.stands, h.stands, hanswers]
  exact ⟨hsame, hresults⟩

/-- The cursor after requests in turn, made to one on a first frame. -/
def after (program : Program) (file : RegisterFile arch) (requests : List (Request arch)) :
    Cursor arch :=
  (serve (perform program) (start file) requests).2

/-- What holds of a cursor at the end of a walk. -/
structure Faithful (program : Program) (file : RegisterFile arch) (requests : List (Request arch)) :
    Prop where
  answers : (serve (perform program) (start file) requests).1 =
    (serve (Position.perform program) (Position.start file) requests).1
  stands : (after program file requests).position =
    (serve (Position.perform program) (Position.start file) requests).2
  lookupPc : (after program file requests).lookupPc =
    if ((start file).arrival program .begun requests).exact
    then (after program file requests).file.ip
    else (after program file requests).file.ip - 1
  failed : ∀ error next, step.outcome program (after program file requests) = (.error error, next) →
    next.position = (after program file requests).position ∧ next.Stays program (.error error)
  ended : ∀ next, step.outcome program (after program file requests) = (.ok .endOfStack, next) →
    next.Stays program (.ok .endOfStack)

theorem after_at (file : RegisterFile arch) (requests : List (Request arch)) :
    (after program file requests).At program
      (serve (Position.perform program) (Position.start file) requests).2 :=
  ((at_start file).serve requests).2

/-- The cursors that walks in the program lead to. -/
def Reachable (program : Program) (cursor : Cursor arch) : Prop :=
  ∃ file requests, after program file requests = cursor

theorem Reachable.stands (h : cursor.Reachable program) : cursor.At program cursor.position := by
  obtain ⟨file, requests, rfl⟩ := h
  have hat : (after program file requests).At program _ := after_at file requests
  exact ⟨hat.knows, rfl⟩

theorem walk_faithful (program : Program) (file : RegisterFile arch)
    (requests : List (Request arch)) : Faithful program file requests := by
  have hstart : (start file).At program (Position.start file) := at_start file
  have hat : (after program file requests).At program _ := after_at file requests
  refine ⟨(hstart.serve requests).1, hat.stands, ?_, ?_, ?_⟩
  · have hbegun : (Position.start file).exactIp = Arrival.begun.exact := rfl
    have hexact := hstart.arrival hbegun requests
    rw [← hat.stands] at hexact
    rw [← hexact]
    rfl
  · intro error next houtcome
    obtain ⟨hresult, hnext⟩ := hat.step
    rw [houtcome] at hresult hnext
    obtain ⟨hsame, hagain⟩ := Position.step_of_error (Prod.ext hresult.symm rfl)
    rw [hnext.stands, hat.stands]
    exact ⟨hsame, hnext.stays hagain⟩
  · intro next houtcome
    obtain ⟨hresult, hnext⟩ := hat.step
    rw [houtcome] at hresult hnext
    exact hnext.stays (Position.step_of_ended (Prod.ext hresult.symm rfl))

end Cursor

end Unwinding
