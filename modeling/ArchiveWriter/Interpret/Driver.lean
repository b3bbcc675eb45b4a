import ArchiveWriter.Basic
import Mathlib.Data.UInt

/-!
# The interpret driver

`src/src/driver/interpret.rs` runs a program by handing each Cranelift instruction to
`cranelift_interpreter::step::step` and acting on the `ControlFlow` it returns: assign the
instruction's results and go on, jump to another block, call a function in a new frame,
tail-call, return, or trap. This module models that driver, `Interpreter::call` and
`Interpreter::block`, over the `InterpreterState` it keeps: a stack of frames, each with
the memory of its stack slots.

What the driver uses of Cranelift is not part of this repository, so it is a parameter
(`Cranelift`): a function's layout and data-flow graph, the interpreter's frames, the
allocator behind `Box::into_raw`, and `step`, which reads the current function, frame and
memory and may write the frame and the memory. The source's `while let` loop and its
recursion through `call` need not end, so the model runs on fuel.

The main results are about every run. A call that returns `Ok` has either restored the
frame stack it started from (`Return`) or trapped in the frame it pushed for the called
function, which stays on the stack (`Trap`); a trap in a function that a run calls or
tail-calls ends in the panic of `unwrap_return` instead (`call_frames`). The unwraps on
the frame stack never panic (`call_ne_stack_panic`).
-/

namespace Interpret

/-- `cranelift_interpreter::step::ControlFlow`: what `step` asks the driver to do next. -/
inductive ControlFlow (F V T : Type)
  | assign (values : List V)
  | continue
  | continueAt (block : Nat) (args : List V)
  | call (callee : F) (args : List V)
  | returnCall (callee : F) (args : List V)
  | «return» (values : List V)
  | trap (code : T)

/-- What the driver uses of Cranelift and the interpreter crate, none of which is in this
repository. Blocks, instructions and SSA values are their entity indices. -/
structure Cranelift where
  -- `ir::Function`, `DataValue`, `cranelift_interpreter::frame::Frame`, and the process
  -- memory the interpreter's raw pointers address
  Function : Type
  DataValue : Type
  Frame : Type
  Memory : Type
  TrapCode : Type
  StepError : Type
  -- `layout.blocks().next()`, `layout.first_inst(block)`, `layout.next_inst(inst)`
  firstBlock : Function → Option Nat
  firstInst : Function → Nat → Option Nat
  nextInst : Function → Nat → Option Nat
  -- `dfg.block_params(block)`, `dfg.inst_results(inst)`
  blockParams : Function → Nat → List Nat
  instResults : Function → Nat → List Nat
  -- the sizes of `function.sized_stack_slots`, in slot order
  stackSlotSizes : Function → List UInt32
  -- `Frame::new(function)`, `frame.set_all(names, values)`
  newFrame : Function → Frame
  setAll : Frame → List Nat → List DataValue → Frame
  -- `Box::into_raw(vec![0; n].into_boxed_slice())`: the address of `n` fresh zero bytes
  alloc : Memory → Nat → Nat × Memory
  -- `step(state, inst)`, on the current function, frame and memory
  step : Memory → Function → Frame → Nat →
    Except StepError (ControlFlow Function DataValue TrapCode × Frame × Memory)

variable (C : Cranelift)

abbrev Flow := ControlFlow C.Function C.DataValue C.TrapCode

/-- `InterpreterState`: the frames, each with the address of its stack-slot memory, the
current one first (the source pushes and pops at the end of a `Vec`); and the memory. -/
structure State where
  stack : List (C.Frame × Nat)
  memory : C.Memory

/-- How a run stops other than by returning: `Err(InterpreterError::StepError)`,
`Err(InterpreterError::Unreachable)` when a block runs out of instructions, a panic of
the driver, or the model's fuel running out. -/
inductive Stop (E : Type)
  | stepError (e : E)
  | unreachable
  | panic (msg : String)
  | outOfFuel
  deriving DecidableEq, Repr

/-- The panic of `unwrap()` on the empty frame stack in `current_frame_mut` and
`pop_frame`. -/
def stackPanic : String := "called Option::unwrap() on a None value"

/-- The panic of `ControlFlow::unwrap_return` on anything but `Return`. -/
def returnPanic : String := "expected the control flow to be in the return state"

/-! ## The frame stack -/

/-- `sum::<u32>()` of the stack-slot sizes: with overflow checks off, as in a release
build, the sum wraps. -/
def frameBytes (sizes : List UInt32) : UInt32 := sizes.sum

/-- `push_frame`: a new frame for `function`, with zeroed memory for its stack slots. -/
def pushFrame (st : State C) (function : C.Function) : State C :=
  let allocated := C.alloc st.memory (frameBytes (C.stackSlotSizes function)).toNat
  { stack := (C.newFrame function, allocated.1) :: st.stack, memory := allocated.2 }

/-- `pop_frame`. -/
def popFrame (st : State C) : Except (Stop C.StepError) (State C) :=
  match st.stack with
  | [] => .error (.panic stackPanic)
  | _ :: rest => .ok { st with stack := rest }

/-- `current_frame_mut().set_all(names, values)`. -/
def setAllCurrent (st : State C) (names : List Nat) (values : List C.DataValue) :
    Except (Stop C.StepError) (State C) :=
  match st.stack with
  | [] => .error (.panic stackPanic)
  | (frame, addr) :: rest => .ok { st with stack := (C.setAll frame names values, addr) :: rest }

/-- `ControlFlow::unwrap_return`. -/
def unwrapReturn : Flow C → Except (Stop C.StepError) (List C.DataValue)
  | .return values => .ok values
  | _ => .error (.panic returnPanic)

/-- The part of `Interpreter::call` before `block`: the function's first block, a new
frame, and the block's parameters set to the arguments. -/
def enter (st : State C) (function : C.Function) (arguments : List C.DataValue) :
    Except (Stop C.StepError) (Nat × State C) :=
  match C.firstBlock function with
  | none => .error (.panic "to have a first block")
  | some block => do
    let st ← setAllCurrent C (pushFrame C st function) (C.blockParams function block) arguments
    return (block, st)

/-! ## The driver -/

/-- `Interpreter::block` from the instruction `inst` on, in `function`, whose frame is the
current one: the `while let` loop over the block's instructions and those it jumps to,
with `fuel` bounding the number of steps and the depth of calls. -/
def run : Nat → State C → C.Function → Option Nat →
    Except (Stop C.StepError) (Flow C × State C)
  | 0, _, _, _ => .error .outOfFuel
  | _ + 1, _, _, none => .error .unreachable
  | fuel + 1, st, function, some inst =>
    match st.stack with
    | [] => .error (.panic stackPanic)
    | (frame, addr) :: rest =>
      match C.step st.memory function frame inst with
      | .error e => .error (.stepError e)
      | .ok (flow, frame, memory) =>
        let st : State C := { stack := (frame, addr) :: rest, memory }
        match flow with
        | .assign values => do
          let st ← setAllCurrent C st (C.instResults function inst) values
          run fuel st function (C.nextInst function inst)
        | .continue => run fuel st function (C.nextInst function inst)
        | .continueAt block args => do
          let st ← setAllCurrent C st (C.blockParams function block) args
          run fuel st function (C.firstInst function block)
        | .call callee args => do
          let (block, st) ← enter C st callee args
          let (flow, st) ← run fuel st callee (C.firstInst callee block)
          let rets ← unwrapReturn C flow
          let st ← setAllCurrent C st (C.instResults function inst) rets
          run fuel st function (C.nextInst function inst)
        | .returnCall callee args => do
          let st ← popFrame C st
          let (block, st) ← enter C st callee args
          let (flow, st) ← run fuel st callee (C.firstInst callee block)
          let rets ← unwrapReturn C flow
          return (.return rets, st)
        | .return values => do
          let st ← popFrame C st
          return (.return values, st)
        | .trap code => .ok (.trap code, st)

/-- `Interpreter::call`. -/
def call (fuel : Nat) (st : State C) (function : C.Function) (arguments : List C.DataValue) :
    Except (Stop C.StepError) (Flow C × State C) := do
  let (block, st) ← enter C st function arguments
  run C fuel st function (C.firstInst function block)

/-! ## What each operation does to the frame stack -/

variable {C}

open ArchiveWriter (except_bind_eq_ok ok_bind)

@[simp] theorem pushFrame_stack (st : State C) (function : C.Function) :
    (pushFrame C st function).stack =
      (C.newFrame function, (C.alloc st.memory (frameBytes (C.stackSlotSizes function)).toNat).1) ::
        st.stack :=
  rfl

theorem setAllCurrent_ok {st st' : State C} {names : List Nat} {values : List C.DataValue}
    (h : setAllCurrent C st names values = .ok st') :
    ∃ frame frame' addr rest,
      st.stack = (frame, addr) :: rest ∧ st'.stack = (frame', addr) :: rest := by
  unfold setAllCurrent at h
  split at h
  · cases h
  · rename_i frame addr rest hs
    cases h
    exact ⟨frame, _, addr, rest, hs, rfl⟩

theorem setAllCurrent_ne_stackPanic {st : State C} (hs : st.stack ≠ []) (names : List Nat)
    (values : List C.DataValue) :
    setAllCurrent C st names values ≠ .error (.panic stackPanic) := by
  unfold setAllCurrent
  split
  · contradiction
  · simp

-- the frame `enter` leaves on top has the slot memory `push_frame` allocated
theorem enter_ok {st st' : State C} {function : C.Function} {arguments : List C.DataValue}
    {block : Nat} (h : enter C st function arguments = .ok (block, st')) :
    ∃ frame, st'.stack =
      (frame, (C.alloc st.memory (frameBytes (C.stackSlotSizes function)).toNat).1) ::
        st.stack := by
  unfold enter at h
  split at h
  · cases h
  · simp only [except_bind_eq_ok, pure, Except.pure, Except.ok.injEq, Prod.mk.injEq] at h
    obtain ⟨st₁, h₁, -, rfl⟩ := h
    obtain ⟨_, frame, addr, rest, hs, hs'⟩ := setAllCurrent_ok h₁
    simp only [pushFrame_stack, List.cons.injEq, Prod.mk.injEq] at hs
    obtain ⟨⟨-, rfl⟩, rfl⟩ := hs
    exact ⟨frame, hs'⟩

theorem enter_ne_stackPanic (st : State C) (function : C.Function)
    (arguments : List C.DataValue) :
    enter C st function arguments ≠ .error (.panic stackPanic) := by
  unfold enter
  split
  · simp [stackPanic]
  · rename_i block _
    cases h :
        setAllCurrent C (pushFrame C st function) (C.blockParams function block) arguments with
    | error e =>
      have hne := setAllCurrent_ne_stackPanic (by simp : (pushFrame C st function).stack ≠ [])
        (C.blockParams function block) arguments
      rw [h] at hne
      simpa [h, bind, Except.bind] using hne
    | ok st' => simp [h, bind, Except.bind, pure, Except.pure]

/-! ## Whole runs -/

theorem run_frames : ∀ {fuel : Nat} {st st' : State C} {function : C.Function}
    {inst : Option Nat} {flow : Flow C} {frame : C.Frame} {addr : Nat}
    {rest : List (C.Frame × Nat)},
    st.stack = (frame, addr) :: rest → run C fuel st function inst = .ok (flow, st') →
    (∃ values, flow = .return values ∧ st'.stack = rest) ∨
      ∃ code frame', flow = .trap code ∧ st'.stack = (frame', addr) :: rest
  | 0, _, _, _, _, _, _, _, _, _, h => by simp [run] at h
  | _ + 1, _, _, _, none, _, _, _, _, _, h => by simp [run] at h
  | fuel + 1, st, st', function, some inst, flow, frame, addr, rest, hs, h => by
    simp only [run, hs] at h
    split at h
    · cases h
    · rename_i flow₀ frame' memory hstep
      cases flow₀ with
      | assign values =>
        simp only [setAllCurrent, ok_bind] at h
        exact run_frames rfl h
      | «continue» => exact run_frames rfl h
      | continueAt block args =>
        simp only [setAllCurrent, ok_bind] at h
        exact run_frames rfl h
      | call callee args =>
        simp only [except_bind_eq_ok, Prod.exists] at h
        obtain ⟨block, st₂, h₂, flow₃, st₃, h₃, rets, h₄, st₄, h₅, h⟩ := h
        obtain ⟨frame₂, hs₂⟩ := enter_ok h₂
        rcases run_frames hs₂ h₃ with ⟨values, rfl, hs₃⟩ | ⟨code, -, rfl, -⟩
        · -- the callee returned: the caller's frame is back on top, at its address
          obtain ⟨_, frame₄, addr₄, rest₄, hs₃', hs₄⟩ := setAllCurrent_ok h₅
          rw [hs₃] at hs₃'
          simp only [List.cons.injEq, Prod.mk.injEq] at hs₃'
          obtain ⟨⟨-, rfl⟩, rfl⟩ := hs₃'
          exact run_frames hs₄ h
        · simp [unwrapReturn] at h₄
      | returnCall callee args =>
        simp only [popFrame, ok_bind, except_bind_eq_ok, Prod.exists] at h
        obtain ⟨block, st₂, h₂, flow₃, st₃, h₃, rets, h₄, h⟩ := h
        obtain ⟨frame₂, hs₂⟩ := enter_ok h₂
        rcases run_frames hs₂ h₃ with ⟨values, rfl, hs₃⟩ | ⟨code, -, rfl, -⟩
        · simp only [pure, Except.pure, Except.ok.injEq, Prod.mk.injEq] at h
          obtain ⟨rfl, rfl⟩ := h
          exact .inl ⟨rets, rfl, hs₃⟩
        · simp [unwrapReturn] at h₄
      | «return» values =>
        simp only [popFrame, ok_bind, pure, Except.pure, Except.ok.injEq, Prod.mk.injEq] at h
        obtain ⟨rfl, rfl⟩ := h
        exact .inl ⟨values, rfl, rfl⟩
      | trap code =>
        simp only [Except.ok.injEq, Prod.mk.injEq] at h
        obtain ⟨rfl, rfl⟩ := h
        exact .inr ⟨code, _, rfl, rfl⟩

theorem run_nested_trap {fuel : Nat} {st : State C} {function : C.Function} {inst : Nat}
    {frame : C.Frame} {addr : Nat} {rest : List (C.Frame × Nat)} {flow : Flow C}
    {frame' : C.Frame} {memory : C.Memory} {callee : C.Function} {args : List C.DataValue}
    {code : C.TrapCode} {st' : State C} (hs : st.stack = (frame, addr) :: rest)
    (hstep : C.step st.memory function frame inst = .ok (flow, frame', memory))
    (hcall : flow = .call callee args ∧
        call C fuel ⟨(frame', addr) :: rest, memory⟩ callee args = .ok (.trap code, st') ∨
      flow = .returnCall callee args ∧
        call C fuel ⟨rest, memory⟩ callee args = .ok (.trap code, st')) :
    run C (fuel + 1) st function (some inst) = .error (.panic returnPanic) := by
  rcases hcall with ⟨rfl, hc⟩ | ⟨rfl, hc⟩ <;>
  · simp only [call, except_bind_eq_ok, Prod.exists] at hc
    obtain ⟨block, st₁, h₁, h₂⟩ := hc
    simp [run, hs, hstep, popFrame, h₁, h₂, unwrapReturn, bind, Except.bind]

/-- A call that returns `Ok` has either restored the caller's frame stack, with the
callee's return values, or trapped in the frame it pushed for the called function, the
one with the slot memory allocated on entry, which stays on the stack. A trap in a
function that a run calls or tail-calls never comes back: the run fails with the panic
of `unwrap_return`. -/
theorem call_frames :
    (∀ {fuel : Nat} {st st' : State C} {function : C.Function}
      {arguments : List C.DataValue} {flow : Flow C},
      call C fuel st function arguments = .ok (flow, st') →
      (∃ values, flow = .return values ∧ st'.stack = st.stack) ∨
        ∃ code frame, flow = .trap code ∧ st'.stack =
          (frame, (C.alloc st.memory (frameBytes (C.stackSlotSizes function)).toNat).1) ::
            st.stack) ∧
    (∀ {fuel : Nat} {st : State C} {function : C.Function} {inst : Nat} {frame : C.Frame}
      {addr : Nat} {rest : List (C.Frame × Nat)} {flow : Flow C} {frame' : C.Frame}
      {memory : C.Memory} {callee : C.Function} {args : List C.DataValue}
      {code : C.TrapCode} {st' : State C},
      st.stack = (frame, addr) :: rest →
      C.step st.memory function frame inst = .ok (flow, frame', memory) →
      flow = .call callee args ∧
          call C fuel ⟨(frame', addr) :: rest, memory⟩ callee args = .ok (.trap code, st') ∨
        flow = .returnCall callee args ∧
          call C fuel ⟨rest, memory⟩ callee args = .ok (.trap code, st') →
      run C (fuel + 1) st function (some inst) = .error (.panic returnPanic)) := by
  refine ⟨fun h => ?_, run_nested_trap⟩
  simp only [call, except_bind_eq_ok, Prod.exists] at h
  obtain ⟨block, st₁, h₁, h⟩ := h
  obtain ⟨frame, hs⟩ := enter_ok h₁
  exact run_frames hs h

def twoCalls : Cranelift where
  Function := Nat
  DataValue := Nat
  Frame := List Nat
  Memory := Nat
  TrapCode := Unit
  StepError := Unit
  firstBlock _ := some 0
  firstInst _ _ := some 0
  nextInst _ inst := if inst = 0 then some 1 else none
  blockParams _ _ := []
  instResults _ _ := [0]
  stackSlotSizes _ := [8]
  newFrame _ := []
  setAll frame _ values := values ++ frame
  alloc next n := (next, next + n)
  step memory function frame inst :=
    match function, inst with
    | 0, 0 => .ok (.call 1 [], frame, memory)
    | 0, _ => .ok (.return frame, frame, memory)
    | 2, _ => .ok (.call 3 [], frame, memory)
    | 3, _ => .ok (.trap (), frame, memory)
    | _, _ => .ok (.return [7], frame, memory)

theorem two_calls_frames :
    (call twoCalls 3 ⟨[], (0 : Nat)⟩ (0 : Nat) [] =
        .ok (.return [(7 : Nat)], ⟨[], (16 : Nat)⟩) ∧
      ((∃ values, (.return [(7 : Nat)] : Flow twoCalls) = .return values ∧
          ([] : List (List Nat × Nat)) = []) ∨
        ∃ code frame, (.return [(7 : Nat)] : Flow twoCalls) = .trap code ∧
          ([] : List (List Nat × Nat)) = [(frame, (0 : Nat))])) ∧
    run twoCalls 3 ⟨[([], 8)], (8 : Nat)⟩ (2 : Nat) (some 0) = .error (.panic returnPanic) := by
  have h : call twoCalls 3 ⟨[], (0 : Nat)⟩ (0 : Nat) [] =
      .ok (.return [(7 : Nat)], ⟨[], (16 : Nat)⟩) := rfl
  have hc : call twoCalls 2 ⟨[([], 8)], (8 : Nat)⟩ (3 : Nat) [] =
      .ok (.trap (), ⟨[([], 8), ([], 8)], (16 : Nat)⟩) := rfl
  exact ⟨⟨h, call_frames.1 h⟩, call_frames.2 rfl rfl (.inl ⟨rfl, hc⟩)⟩

theorem bind_ne_error {ε α β : Type} {x : Except ε α} {f : α → Except ε β} {e : ε}
    (hx : x ≠ .error e) (hf : ∀ a, x = .ok a → f a ≠ .error e) : x >>= f ≠ .error e := by
  cases x with
  | error e' => simpa [bind, Except.bind] using hx
  | ok a => exact hf a rfl

theorem unwrapReturn_ne_stackPanic (flow : Flow C) :
    unwrapReturn C flow ≠ .error (.panic stackPanic) := by
  cases flow <;> simp [unwrapReturn, stackPanic, returnPanic]

-- started on a frame, every `current_frame_mut().unwrap()` and `pop_frame` finds one
theorem run_ne_stackPanic : ∀ {fuel : Nat} {st : State C} {function : C.Function}
    {inst : Option Nat}, st.stack ≠ [] →
    run C fuel st function inst ≠ .error (.panic stackPanic)
  | 0, _, _, _, _ => by simp [run]
  | _ + 1, _, _, none, _ => by simp [run]
  | fuel + 1, st, function, some inst, hne => by
    obtain ⟨⟨frame, addr⟩, rest, hs⟩ := List.exists_cons_of_ne_nil hne
    simp only [run, hs]
    split
    · simp
    · rename_i flow₀ frame' memory hstep
      cases flow₀ with
      | assign values =>
        simp only [setAllCurrent, ok_bind]
        exact run_ne_stackPanic (by simp)
      | «continue» => exact run_ne_stackPanic (by simp)
      | continueAt block args =>
        simp only [setAllCurrent, ok_bind]
        exact run_ne_stackPanic (by simp)
      | call callee args =>
        refine bind_ne_error (enter_ne_stackPanic _ _ _) ?_
        rintro ⟨block, st₂⟩ h₂
        obtain ⟨frame₂, hs₂⟩ := enter_ok h₂
        refine bind_ne_error (run_ne_stackPanic (by simp [hs₂])) ?_
        rintro ⟨flow₃, st₃⟩ h₃
        refine bind_ne_error (unwrapReturn_ne_stackPanic _) fun rets h₄ => ?_
        have hs₃ : st₃.stack ≠ [] := by
          rcases run_frames hs₂ h₃ with ⟨-, -, hs₃⟩ | ⟨-, _, -, hs₃⟩ <;> simp [hs₃]
        refine bind_ne_error (setAllCurrent_ne_stackPanic hs₃ _ _) fun st₄ h₅ => ?_
        obtain ⟨-, _, _, _, -, hs₄⟩ := setAllCurrent_ok h₅
        exact run_ne_stackPanic (by simp [hs₄])
      | returnCall callee args =>
        simp only [popFrame, ok_bind]
        refine bind_ne_error (enter_ne_stackPanic _ _ _) ?_
        rintro ⟨block, st₂⟩ h₂
        obtain ⟨frame₂, hs₂⟩ := enter_ok h₂
        refine bind_ne_error (run_ne_stackPanic (by simp [hs₂])) ?_
        rintro ⟨flow₃, st₃⟩ -
        refine bind_ne_error (unwrapReturn_ne_stackPanic _) fun rets _ => ?_
        simp [pure, Except.pure]
      | «return» values => simp [popFrame, ok_bind, pure, Except.pure]
      | trap code => simp

/-- A call never panics on the frame stack, whatever stack it starts from: it pushes the
callee's frame before anything looks at one. -/
theorem call_ne_stack_panic (fuel : Nat) (st : State C) (function : C.Function)
    (arguments : List C.DataValue) :
    call C fuel st function arguments ≠ .error (.panic stackPanic) := by
  refine bind_ne_error (enter_ne_stackPanic _ _ _) ?_
  rintro ⟨block, st₁⟩ h₁
  obtain ⟨frame, hs⟩ := enter_ok h₁
  exact run_ne_stackPanic (by simp [hs])

end Interpret
