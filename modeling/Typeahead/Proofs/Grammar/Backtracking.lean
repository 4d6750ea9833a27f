import Mathlib.Data.Finset.Card
import Typeahead.Proofs.Grammar.Walks

/-!
# Backtracking walks

A walk through a lexical rule can keep one text, one stack of returns, one set of positions and one list of spellings
for all its calls.  A call then changes what it shares with the others, and takes each change back when the call it was
made for has returned.  The steps of such a walk are told here without any bound on their number (`Runs`), so a walk
that does not end has no result.

A task that returns leaves everything but the spellings as it was (`Runs.eq_of_mem`).  There is no more than one result
(`Runs.unique`), and it is that of `Network.walk`, whose calls share nothing (`runs_walk`).
-/

namespace Typeahead

/-- What the calls of a walk share: the text that has been spelled, last character first; the states at which the open
fragments go on, innermost first; the positions of the calls in progress; and the spellings that have been found. -/
structure WalkMemory where
  text : List Char
  returns : List StateId
  onPath : Finset WalkPosition
  found : List String

namespace WalkMemory

/-- What a walk begins with. -/
def empty : WalkMemory := ⟨[], [], ∅, []⟩

def pushText (m : WalkMemory) (c : Char) : WalkMemory := { m with text := c :: m.text }

def popText (m : WalkMemory) : WalkMemory := { m with text := m.text.tail }

def pushReturn (m : WalkMemory) (follow : StateId) : WalkMemory := { m with returns := follow :: m.returns }

def popReturn (m : WalkMemory) : WalkMemory := { m with returns := m.returns.tail }

/-- The position of a call that visits the state. -/
def position (m : WalkMemory) (s : StateId) : WalkPosition := ⟨s, m.returns⟩

/-- Puts the position of a call on the path. -/
def enter (m : WalkMemory) (s : StateId) : WalkMemory := { m with onPath := insert (m.position s) m.onPath }

/-- Takes the position of a call off the path. -/
def exit (m : WalkMemory) (s : StateId) : WalkMemory := { m with onPath := m.onPath.erase (m.position s) }

/-- The memory with other spellings. -/
def withFound (m : WalkMemory) (found : List String) : WalkMemory := { m with found }

/-- A new position is put on the path and taken off again, whatever has been found in between. -/
theorem exit_withFound_enter {m : WalkMemory} {s : StateId} (h : m.position s ∉ m.onPath) (found : List String) :
    ((m.enter s).withFound found).exit s = m.withFound found := by
  simp only [withFound, enter, exit, position] at h ⊢
  rw [Finset.erase_insert h]

/-- The memory `m'` is `m` changed for a call behind the character `c`, if there is one, and `undo` takes the change
back, whatever the call has found. -/
structure ChangedFor (m : WalkMemory) (c : Option Char) (m' : WalkMemory) (undo : WalkMemory → WalkMemory) : Prop where
  text_eq : m'.text = c.toList ++ m.text
  onPath_eq : m'.onPath = m.onPath
  found_eq : m'.found = m.found
  undo_eq : ∀ found, undo (m'.withFound found) = m.withFound found

end WalkMemory

/-- What a call does about one of its transitions. -/
inductive Turn where
  | givesUp
  /-- Goes on to the next transition without a call. -/
  | goesOn (m : WalkMemory)
  /-- Makes a call that visits `s`, and then takes back by `undo` what has been changed for it. -/
  | calls (s : StateId) (m : WalkMemory) (undo : WalkMemory → WalkMemory)

/-- What a call has to do: to visit a state, or to turn to the transitions of its state one after another. -/
inductive WalkTask where
  | visit (s : StateId)
  | follow (ts : List (Transition Char Text.CharSet))

namespace Network

variable {net : LexicalNetwork}

/-- What a call does about a transition; nothing if a rule that does not exist is called. -/
def turn (net : LexicalNetwork) (m : WalkMemory) : Transition Char Text.CharSet → Option Turn
  | .epsilon target => some (.calls target m id)
  | .consume (.symbol c) target => some (.calls target (m.pushText c) .popText)
  | .consume (.oneOf set) target =>
    match set.spelling? with
    | none => some .givesUp
    | some c => some (.calls target (m.pushText c) .popText)
  | .call callee follow =>
    if maxFragmentDepth ≤ m.returns.length then some .givesUp
    else (net.start? callee).map fun start => .calls start (m.pushReturn follow) .popReturn
  | .leave =>
    match m.returns with
    | follow :: _ => some (.calls follow m.popReturn (·.pushReturn follow))
    | [] =>
      match note m.text m.found with
      | none => some .givesUp
      | some found => some (.goesOn (m.withFound found))

/-- A task is carried out, beginning with some memory, and gives up (`none`) or returns and leaves some memory. -/
inductive Runs (net : LexicalNetwork) : WalkTask → WalkMemory → Option WalkMemory → Prop where
  | loop {s : StateId} {m : WalkMemory} (h : m.position s ∈ m.onPath) : Runs net (.visit s) m none
  | visit {s : StateId} {m : WalkMemory} {state : State Char Text.CharSet} {r : Option WalkMemory}
    (h : m.position s ∉ m.onPath) (hs : net.states[s]? = some state)
    (hr : Runs net (.follow state.transitions) (m.enter s) r) : Runs net (.visit s) m (r.map (·.exit s))
  | done {m : WalkMemory} : Runs net (.follow []) m (some m)
  | givesUp {t : Transition Char Text.CharSet} {ts : List (Transition Char Text.CharSet)} {m : WalkMemory}
    (h : net.turn m t = some .givesUp) : Runs net (.follow (t :: ts)) m none
  | goesOn {t : Transition Char Text.CharSet} {ts : List (Transition Char Text.CharSet)} {m m' : WalkMemory}
    {r : Option WalkMemory} (h : net.turn m t = some (.goesOn m')) (hr : Runs net (.follow ts) m' r) :
    Runs net (.follow (t :: ts)) m r
  | fails {t : Transition Char Text.CharSet} {ts : List (Transition Char Text.CharSet)} {m m' : WalkMemory}
    {s : StateId} {undo : WalkMemory → WalkMemory} (h : net.turn m t = some (.calls s m' undo))
    (hv : Runs net (.visit s) m' none) : Runs net (.follow (t :: ts)) m none
  | returns {t : Transition Char Text.CharSet} {ts : List (Transition Char Text.CharSet)} {m m' m'' : WalkMemory}
    {s : StateId} {undo : WalkMemory → WalkMemory} {r : Option WalkMemory}
    (h : net.turn m t = some (.calls s m' undo)) (hv : Runs net (.visit s) m' (some m''))
    (hr : Runs net (.follow ts) (undo m'') r) : Runs net (.follow (t :: ts)) m r

variable {m m' : WalkMemory} {s s' : StateId} {t : Transition Char Text.CharSet}
  {ts : List (Transition Char Text.CharSet)} {task : WalkTask} {r r' : Option WalkMemory} {path : List WalkPosition}

/-! ### Turns -/

/-- A turn does what a walk that shares nothing does over the transition, and what it changes for a call is taken back
after the call. -/
theorem turn_cases {a : Turn} (h : net.turn m t = some a) (s : StateId) :
    (a = .givesUp ∧ ∀ fuel path, net.walkOver fuel path (m.position s) m.text m.found t = none) ∨
    (∃ found, a = .goesOn (m.withFound found) ∧
      ∀ fuel path, net.walkOver fuel path (m.position s) m.text m.found t = some found) ∨
    ∃ s' m' undo c, a = .calls s' m' undo ∧ net.visit (m.position s) t = .goes c (m'.position s') ∧
      m.ChangedFor c m' undo := by
  cases t with
  | epsilon target =>
    cases h
    exact Or.inr (Or.inr ⟨target, m, id, none, rfl, rfl, ⟨rfl, rfl, rfl, fun _ => rfl⟩⟩)
  | consume label target =>
    cases label with
    | symbol c =>
      cases h
      exact Or.inr (Or.inr ⟨target, m.pushText c, .popText, some c, rfl, rfl, ⟨rfl, rfl, rfl, fun _ => rfl⟩⟩)
    | oneOf set =>
      simp only [turn] at h
      split at h
      · rename_i hc
        cases h
        exact Or.inl ⟨rfl, fun fuel path => by simp [walkOver, visit, hc]⟩
      · rename_i c hc
        cases h
        refine Or.inr (Or.inr ⟨target, m.pushText c, .popText, some c, rfl, ?_, ⟨rfl, rfl, rfl, fun _ => rfl⟩⟩)
        simp only [visit, hc]
        rfl
  | call callee follow =>
    simp only [turn] at h
    split at h
    · rename_i hdeep
      cases h
      exact Or.inl ⟨rfl, fun fuel path => by simp [walkOver, visit, WalkMemory.position, hdeep]⟩
    · rename_i hdeep
      obtain ⟨start, hstart, rfl⟩ := Option.map_eq_some_iff.1 h
      refine Or.inr (Or.inr ⟨start, m.pushReturn follow, .popReturn, none, rfl, ?_, ⟨rfl, rfl, rfl, fun _ => rfl⟩⟩)
      simp only [visit, WalkMemory.position, hdeep, hstart]
      rfl
  | leave =>
    obtain ⟨text, returns, onPath, found⟩ := m
    cases returns with
    | cons follow returns =>
      cases h
      exact Or.inr (Or.inr ⟨follow, _, _, none, rfl, rfl, ⟨rfl, rfl, rfl, fun _ => rfl⟩⟩)
    | nil =>
      simp only [turn] at h
      split at h
      · rename_i hnote
        cases h
        exact Or.inl ⟨rfl, fun fuel path => hnote⟩
      · rename_i found' hnote
        cases h
        exact Or.inr (Or.inl ⟨found', rfl, fun fuel path => hnote⟩)

theorem eq_of_turn_goesOn (h : net.turn m t = some (.goesOn m')) : m' = m.withFound m'.found := by
  rcases turn_cases h 0 with ⟨ha, -⟩ | ⟨found, ha, -⟩ | ⟨_, _, _, _, ha, -⟩
  · cases ha
  · cases ha
    rfl
  · cases ha

theorem turn_calls {undo : WalkMemory → WalkMemory} (h : net.turn m t = some (.calls s' m' undo)) (s : StateId) :
    ∃ c, net.visit (m.position s) t = .goes c (m'.position s') ∧ m.ChangedFor c m' undo := by
  rcases turn_cases h s with ⟨ha, -⟩ | ⟨found, ha, -⟩ | ⟨_, _, _, c, ha, hc⟩
  · cases ha
  · cases ha
  · cases ha
    exact ⟨c, hc⟩

theorem exists_turn (hn : net.InRange) (ht : t ∈ net.transitions s) (m : WalkMemory) :
    ∃ a, net.turn m t = some a := by
  cases t with
  | epsilon target => exact ⟨_, rfl⟩
  | consume label target =>
    cases label with
    | symbol c => exact ⟨_, rfl⟩
    | oneOf set =>
      simp only [turn]
      split <;> exact ⟨_, rfl⟩
  | call callee follow =>
    obtain ⟨start, hstart⟩ := hn.exists_start? ht
    simp only [turn, hstart]
    split <;> exact ⟨_, rfl⟩
  | leave =>
    simp only [turn]
    split
    · exact ⟨_, rfl⟩
    · split <;> exact ⟨_, rfl⟩

/-! ### Results -/

/-- A task that returns has changed nothing but the spellings. -/
theorem Runs.eq_of_mem (h : net.Runs task m r) : ∀ m' ∈ r, m' = m.withFound m'.found := by
  induction h with
  | loop | givesUp | fails => simp
  | done =>
    rintro _ ⟨⟩
    rfl
  | @visit s m state r hnew _ _ ih =>
    rintro _ hm'
    obtain ⟨m₁, hm₁, rfl⟩ := Option.mem_map.1 hm'
    rw [ih m₁ hm₁]
    exact WalkMemory.exit_withFound_enter hnew _
  | goesOn h _ ih =>
    intro m' hm'
    rw [eq_of_turn_goesOn h] at ih
    exact ih m' hm'
  | returns h _ _ ihv ih =>
    -- the call has changed nothing but the spellings, so what was changed for it is what is taken back
    obtain ⟨c, -, hc⟩ := turn_calls h 0
    rw [ihv _ rfl, hc.undo_eq] at ih
    exact ih

/-- A task has no more than one result. -/
theorem Runs.unique (h : net.Runs task m r) (h' : net.Runs task m r') : r = r' := by
  induction h generalizing r' with
  | loop h =>
    cases h' with
    | loop => rfl
    | visit hnew => exact absurd h hnew
  | visit hnew hs _ ih =>
    cases h' with
    | loop h => exact absurd h hnew
    | visit _ hs' hr =>
      cases hs.symm.trans hs'
      rw [ih hr]
  | done =>
    cases h'
    rfl
  | givesUp h =>
    cases h' with
    | givesUp | fails => rfl
    | goesOn h' | returns h' => cases h.symm.trans h'
  | goesOn h _ ih =>
    cases h' with
    | givesUp h' | fails h' | returns h' => cases h.symm.trans h'
    | goesOn h' hr =>
      cases h.symm.trans h'
      exact ih hr
  | fails h _ ihv =>
    cases h' with
    | givesUp | fails => rfl
    | goesOn h' => cases h.symm.trans h'
    | returns h' hv =>
      cases h.symm.trans h'
      cases ihv hv
  | returns h _ _ ihv ih =>
    cases h' with
    | givesUp h' | goesOn h' => cases h.symm.trans h'
    | fails h' hv =>
      cases h.symm.trans h'
      cases ihv hv
    | returns h' hv hr =>
      cases h.symm.trans h'
      cases ihv hv
      exact ih hr

/-! ### The same walk without anything shared -/

/-- Transitions are followed as by a walk that shares nothing, if the calls that are made on the way are. -/
theorem runs_follow {fuel : Nat} (hturn : ∀ t ∈ ts, ∀ m, ∃ a, net.turn m t = some a)
    (hcall : ∀ t ∈ ts, ∀ found s' m' undo, net.turn (m.withFound found) t = some (.calls s' m' undo) →
      net.Runs (.visit s') m' ((walk net fuel (m.position s :: path) (m'.position s') m'.text m'.found).map
        m'.withFound)) (found : List String) :
    net.Runs (.follow ts) (m.withFound found) ((ts.foldlM (net.walkOver fuel path (m.position s) m.text) found).map
      m.withFound) := by
  induction ts generalizing found with
  | nil => exact .done
  | cons t ts ih =>
    obtain ⟨hturn_t, hturn⟩ := List.forall_mem_cons.1 hturn
    obtain ⟨hcall_t, hcall⟩ := List.forall_mem_cons.1 hcall
    obtain ⟨a, ha⟩ := hturn_t (m.withFound found)
    rw [List.foldlM_cons]
    rcases turn_cases ha s with ⟨rfl, hw⟩ | ⟨found', rfl, hw⟩ | ⟨s', m', undo, c, rfl, hv, hc⟩
    · rw [show net.walkOver fuel path (m.position s) m.text found t = none from hw fuel path]
      exact .givesUp ha
    · rw [show net.walkOver fuel path (m.position s) m.text found t = some found' from hw fuel path]
      exact .goesOn ha (ih hturn hcall found')
    · have hrun := hcall_t found s' m' undo ha
      have hover : net.walkOver fuel path (m.position s) m.text found t =
          walk net fuel (m.position s :: path) (m'.position s') m'.text m'.found := by
        rw [hc.text_eq, hc.found_eq]
        simp only [walkOver, show net.visit (m.position s) t = .goes c (m'.position s') from hv]
        rfl
      rw [hover]
      cases hw : walk net fuel (m.position s :: path) (m'.position s') m'.text m'.found with
      | none =>
        rw [hw] at hrun
        exact .fails ha hrun
      | some found' =>
        rw [hw] at hrun
        refine .returns ha hrun ?_
        rw [hc.undo_eq]
        exact ih hturn hcall found'

/-- A call has the result of a walk that shares nothing and has enough fuel. -/
theorem runs_walk (hn : net.InRange) {fuel : Nat}
    (hfuel : positionCount net.states.size maxFragmentDepth < fuel + path.length) (hpath : path.Nodup)
    (hin : ∀ q ∈ path, Inside net.states.size maxFragmentDepth q) (hm : ∀ q, q ∈ m.onPath ↔ q ∈ path)
    (hp : Inside net.states.size maxFragmentDepth (m.position s)) :
    net.Runs (.visit s) m ((walk net fuel path (m.position s) m.text m.found).map m.withFound) := by
  induction fuel generalizing path m s with
  | zero =>
    -- the path would hold more positions than there are
    have hlen := length_le_positionCount hpath hin
    omega
  | succ fuel ih =>
    rw [walk_succ]
    by_cases hmem : m.position s ∈ path
    · rw [if_pos hmem]
      exact .loop ((hm _).2 hmem)
    · rw [if_neg hmem]
      have hnew : m.position s ∉ m.onPath := fun h => hmem ((hm _).1 h)
      obtain ⟨state, hstate⟩ : ∃ state, net.states[s]? = some state := ⟨_, Array.getElem?_eq_getElem hp.state_lt⟩
      have hts : net.transitions s = state.transitions := transitions_of_getElem? hstate
      have hrun : net.Runs (.follow state.transitions) ((m.enter s).withFound m.found)
          (((net.transitions s).foldlM (net.walkOver fuel path (m.position s) m.text) m.found).map
            (m.enter s).withFound) := by
        rw [← hts]
        refine runs_follow (fun t ht => exists_turn hn ht) (fun t ht found s' m' undo ha => ?_) m.found
        obtain ⟨c, hv, hc⟩ := turn_calls ha s
        have hq := hp.of_visit hn (Nat.le_refl _) ht hv
        have hfuel' : positionCount net.states.size maxFragmentDepth < fuel + (m.position s :: path).length := by
          rw [List.length_cons]
          omega
        refine ih hfuel' (List.nodup_cons.2 ⟨hmem, hpath⟩) (List.forall_mem_cons.2 ⟨hp, hin⟩) (fun q => ?_) hq
        rw [hc.onPath_eq, List.mem_cons, ← hm]
        exact Finset.mem_insert
      have hexit : (·.exit s) ∘ (m.enter s).withFound = m.withFound := funext (WalkMemory.exit_withFound_enter hnew)
      have hvisit := Runs.visit hnew hstate hrun
      rw [Option.map_map, hexit] at hvisit
      exact hvisit

end Network

end Typeahead
