import Std.Data.HashSet
import Typeahead.Network.Basic

/-!
# Configurations

A configuration is one thread of a nondeterministic run: a state and the stack of rule invocations that are
open there.  `ConfigurationSet` keeps configurations in the order of their first insertion.
-/

namespace Typeahead

/-- An open rule invocation: the rule that was entered, and where its caller goes on. -/
structure Frame where
  rule : RuleId
  follow : StateId
  deriving Repr, DecidableEq, Hashable

/-- The open rule invocations, innermost first. -/
abbrev CallStack := List Frame

namespace CallStack

/-- The stack with one more invocation opened. -/
def push (stack : CallStack) (frame : Frame) : CallStack := frame :: stack

/-- The innermost invocation and the stack below it.  On the empty stack there is none: leaving the outermost
rule completes it. -/
def pop? : CallStack → Option (Frame × CallStack)
  | [] => none
  | frame :: rest => some (frame, rest)

/-- The number of open invocations. -/
def depth (stack : CallStack) : Nat := stack.length

/-- The invocations from the outermost to the innermost. -/
def frames (stack : CallStack) : List Frame := stack.reverse

/-- The stack whose invocations are listed from the outermost to the innermost. -/
def ofFrames (frames : List Frame) : CallStack := frames.reverse

@[simp] theorem pop?_push (stack : CallStack) (frame : Frame) : (stack.push frame).pop? = some (frame, stack) := rfl

@[simp] theorem depth_push (stack : CallStack) (frame : Frame) : (stack.push frame).depth = stack.depth + 1 := rfl

@[simp] theorem frames_push (stack : CallStack) (frame : Frame) :
    (stack.push frame).frames = stack.frames ++ [frame] := by
  simp [push, frames]

@[simp] theorem ofFrames_frames (stack : CallStack) : ofFrames stack.frames = stack := by
  simp [ofFrames, frames]

end CallStack

/-- A state paired with its call stack. -/
structure Configuration where
  state : StateId
  stack : CallStack
  deriving Repr, DecidableEq, Hashable

namespace Configuration

/-- The configuration at `state` with no open invocation. -/
def initial (state : StateId) : Configuration := ⟨state, []⟩

/-- The same stack at another state. -/
def movedTo (c : Configuration) (state : StateId) : Configuration := ⟨state, c.stack⟩

end Configuration

/-- A set of configurations that remembers the order of insertion.  Membership is looked up in a hash set, which
holds exactly the listed items. -/
structure ConfigurationSet where
  items : Array Configuration
  members : Std.HashSet Configuration
  mem_members : ∀ c, c ∈ members ↔ c ∈ items

namespace ConfigurationSet

/-- The set without members. -/
def empty : ConfigurationSet := ⟨#[], ∅, by simp⟩

/-- Whether a configuration is a member. -/
def contains (set : ConfigurationSet) (c : Configuration) : Bool := set.members.contains c

/-- Adds a configuration that is not a member yet. -/
def push (set : ConfigurationSet) (c : Configuration) : ConfigurationSet where
  items := set.items.push c
  members := set.members.insert c
  mem_members x := by
    rw [Std.HashSet.mem_insert, Array.mem_push, set.mem_members, beq_iff_eq, or_comm, eq_comm]

/-- Adds a configuration unless it is a member already. -/
def insert (set : ConfigurationSet) (c : Configuration) : ConfigurationSet :=
  if set.contains c then set else set.push c

/-- The number of members. -/
def size (set : ConfigurationSet) : Nat := set.items.size

/-- The members in the order of their first insertion. -/
def toList (set : ConfigurationSet) : List Configuration := set.items.toList

/-- The set of the listed configurations. -/
def ofList (cs : List Configuration) : ConfigurationSet := cs.foldl insert empty

/-- The lookup finds exactly the listed members. -/
theorem contains_iff_mem_toList (set : ConfigurationSet) (c : Configuration) :
    set.contains c = true ↔ c ∈ set.toList := by
  simp [contains, toList, set.mem_members]

@[simp] theorem size_push (set : ConfigurationSet) (c : Configuration) : (set.push c).size = set.size + 1 := by
  simp [push, size]

@[simp] theorem toList_push (set : ConfigurationSet) (c : Configuration) :
    (set.push c).toList = set.toList ++ [c] := by
  simp [push, toList]

/-- A new member comes last; inserting a member changes nothing. -/
theorem toList_insert (set : ConfigurationSet) (c : Configuration) :
    (set.insert c).toList = if set.contains c then set.toList else set.toList ++ [c] := by
  unfold insert
  split <;> simp_all

@[simp] theorem toList_empty : empty.toList = [] := rfl

theorem mem_toList_insert {set : ConfigurationSet} {c x : Configuration} :
    x ∈ (set.insert c).toList ↔ x ∈ set.toList ∨ x = c := by
  rw [toList_insert]
  split
  · rename_i hc
    rw [contains_iff_mem_toList] at hc
    constructor
    · exact Or.inl
    · rintro (hx | rfl)
      · exact hx
      · exact hc
  · simp

private theorem mem_toList_foldl_insert {cs : List Configuration} {set : ConfigurationSet} {x : Configuration} :
    x ∈ (cs.foldl insert set).toList ↔ x ∈ set.toList ∨ x ∈ cs := by
  induction cs generalizing set with
  | nil => simp
  | cons c cs ih => rw [List.foldl_cons, ih, mem_toList_insert, List.mem_cons, or_assoc]

/-- The set of the listed configurations has just these members. -/
theorem mem_toList_ofList {cs : List Configuration} {x : Configuration} : x ∈ (ofList cs).toList ↔ x ∈ cs := by
  simp [ofList, mem_toList_foldl_insert]

end ConfigurationSet

end Typeahead
