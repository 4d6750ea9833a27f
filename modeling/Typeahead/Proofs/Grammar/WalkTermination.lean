import Typeahead.Proofs.Grammar.Backtracking

/-!
# Walks end

A walk calls itself from within its calls, along the cycles of the network and through fragments that call one another.
What keeps it from going on forever is the path: each call in progress stands at a position of its own
(`Active.pathOf`), and a lexical network has finitely many positions with at most 32 open fragments.  So the walk for
the spellings of a rule always has a result (`walk_terminates`).
-/

namespace Typeahead

/-- A call of the walk: the state that it visits, and the memory it begins with. -/
structure WalkCall where
  state : StateId
  memory : WalkMemory

/-- The position at which a call stands. -/
def WalkCall.position (c : WalkCall) : WalkPosition := c.memory.position c.state

namespace Network

variable {net : LexicalNetwork}

/-! ### Calls in progress -/

/-- A call makes another one: it has put its position on the path, has done with the transitions `before`, and turns to
a transition for which the other call is made. -/
inductive Makes (net : LexicalNetwork) : WalkCall → WalkCall → Prop where
  | mk {s s' : StateId} {m₀ m m' : WalkMemory} {state : State Char Text.CharSet}
    {before after : List (Transition Char Text.CharSet)} {t : Transition Char Text.CharSet}
    {undo : WalkMemory → WalkMemory} (hnew : m₀.position s ∉ m₀.onPath) (hs : net.states[s]? = some state)
    (hts : state.transitions = before ++ t :: after) (hr : net.Runs (.follow before) (m₀.enter s) (some m))
    (ht : net.turn m t = some (.calls s' m' undo)) : Makes net ⟨s, m₀⟩ ⟨s', m'⟩

/-- The call `c` is in progress within the calls `outer`, innermost first; the outermost one is `first`.  A call at a
position that is on the path already is over at once, so it never counts as being in progress. -/
inductive Active (net : LexicalNetwork) (first : WalkCall) : WalkCall → List WalkCall → Prop where
  | first (h : first.position ∉ first.memory.onPath) : Active net first first []
  | made {c c' : WalkCall} {outer : List WalkCall} (h : Active net first c outer) (hc : net.Makes c c')
    (hnew : c'.position ∉ c'.memory.onPath) : Active net first c' (c :: outer)

/-- The calls in progress stand at distinct positions of the network, and those around the innermost one are on its
path. -/
structure PathOf (net : LexicalNetwork) (c : WalkCall) (outer : List WalkCall) : Prop where
  nodup : ((c :: outer).map (·.position)).Nodup
  mem_onPath : ∀ q, q ∈ c.memory.onPath ↔ q ∈ outer.map (·.position)
  inside : ∀ d ∈ c :: outer, Inside net.states.size maxFragmentDepth d.position

variable {c c' first : WalkCall} {outer : List WalkCall} {rule : RuleId} {start : StateId}

/-- A call is made over a transition, with a path that is longer by the position of its maker. -/
theorem Makes.spec (h : net.Makes c c') :
    c'.memory.onPath = insert c.position c.memory.onPath ∧
      ∃ t ∈ net.transitions c.state, ∃ x, net.visit c.position t = .goes x c'.position := by
  cases h with
  | @mk s s' m₀ m m' state before after t undo hnew hs hts hr ht =>
    -- the calls made before have left nothing behind but spellings
    have hm : m = (m₀.enter s).withFound m.found := hr.eq_of_mem m rfl
    rw [hm] at ht
    obtain ⟨x, hv, hx⟩ := turn_calls ht s
    refine ⟨hx.onPath_eq, t, ?_, x, hv⟩
    rw [transitions_of_getElem? hs, hts]
    exact List.mem_append_right _ (List.mem_cons_self ..)

/-- A call that finds its position on the path makes no calls. -/
theorem Makes.not_mem_onPath (h : net.Makes c c') : c.position ∉ c.memory.onPath := by
  cases h with
  | mk hnew => exact hnew

theorem PathOf.made (hn : net.InRange) (h : net.PathOf c outer) (hc : net.Makes c c')
    (hnew : c'.position ∉ c'.memory.onPath) : net.PathOf c' (c :: outer) := by
  obtain ⟨hpath, t, ht, x, hv⟩ := hc.spec
  have hmem : ∀ q, q ∈ c'.memory.onPath ↔ q ∈ (c :: outer).map (·.position) := by
    intro q
    rw [hpath, Finset.mem_insert, h.mem_onPath, List.map_cons, List.mem_cons]
  have hc' : Inside net.states.size maxFragmentDepth c'.position :=
    (h.inside c (List.mem_cons_self ..)).of_visit hn (Nat.le_refl _) ht hv
  exact ⟨List.nodup_cons.2 ⟨fun hold => hnew ((hmem _).2 hold), h.nodup⟩, hmem,
    List.forall_mem_cons.2 ⟨hc', h.inside⟩⟩

theorem inside_start (hn : net.InRange) (hs : net.start? rule = some start) :
    Inside net.states.size maxFragmentDepth ⟨start, []⟩ :=
  ⟨hn.start_lt hs, Nat.zero_le _, nofun⟩

theorem Active.pathOf (hn : net.InRange) (hs : net.start? rule = some start)
    (h : net.Active ⟨start, .empty⟩ c outer) : net.PathOf c outer := by
  induction h with
  | first =>
    refine ⟨List.nodup_singleton _, fun q => iff_of_false (Finset.notMem_empty q) List.not_mem_nil, ?_⟩
    rintro d hd
    rw [List.mem_singleton.1 hd]
    exact inside_start hn hs
  | made _ hc hnew ih => exact ih.made hn hc hnew

/-! ### Walks end -/

/-- The walk from the start of a rule has a result, which is that of a walk that shares nothing and has enough fuel. -/
theorem runs_from_start (hn : net.InRange) (hs : net.start? rule = some start) {fuel : Nat}
    (hfuel : net.walkFuel ≤ fuel) :
    net.Runs (.visit start) .empty ((walk net fuel [] ⟨start, []⟩ [] []).map WalkMemory.empty.withFound) := by
  have hcount : positionCount net.states.size maxFragmentDepth < fuel + ([] : List WalkPosition).length :=
    calc positionCount net.states.size maxFragmentDepth
      _ ≤ positionCount (net.states.size + 1) maxFragmentDepth := positionCount_mono (Nat.le_succ _) _
      _ < net.walkFuel := Nat.lt_succ_self _
      _ ≤ fuel := hfuel
  exact runs_walk hn hcount List.nodup_nil nofun (fun q => iff_of_false (Finset.notMem_empty q) List.not_mem_nil)
    (inside_start hn hs)

/-- In a network without dangling ids, whatever loops there are, the walk for the spellings of a rule ends.  It has just
one result, and the spellings that it has found are those of the rule.  The calls in progress stand at distinct
positions with at most 32 open fragments, so there are never more of them than such positions; a call at one of their
positions gives up without making any further calls.  Each call that returns leaves the text, the stack of returns and
the path as they were before. -/
theorem walk_terminates (hn : net.InRange) (hs : net.start? rule = some start) :
    (∃! r, net.Runs (.visit start) .empty r) ∧
    (∀ r, net.Runs (.visit start) .empty r →
      (∀ fuel, net.walkFuel ≤ fuel → walk net fuel [] ⟨start, []⟩ [] [] = r.map (·.found)) ∧
      net.spellings? rule = (r.map (·.found)).filter (· ≠ [])) ∧
    (∀ c outer, net.Active ⟨start, .empty⟩ c outer →
      ((c :: outer).map (·.position)).Nodup ∧
      (∀ d ∈ c :: outer, d.memory.returns.length ≤ 32) ∧
      (c :: outer).length ≤ positionCount net.states.size 32 ∧
      ∀ c', net.Makes c c' → c'.position ∈ (c :: outer).map (·.position) →
        (∀ r, net.Runs (.visit c'.state) c'.memory r ↔ r = none) ∧ ∀ c'', ¬ net.Makes c' c'') ∧
    ∀ s m m', net.Runs (.visit s) m (some m') →
      m'.text = m.text ∧ m'.returns = m.returns ∧ m'.onPath = m.onPath := by
  have hresult : ∀ {r fuel}, net.Runs (.visit start) .empty r → net.walkFuel ≤ fuel →
      walk net fuel [] ⟨start, []⟩ [] [] = r.map (·.found) := by
    intro r fuel hr hfuel
    rw [hr.unique (runs_from_start hn hs hfuel), Option.map_map]
    exact Option.map_id'.symm
  refine ⟨⟨_, runs_from_start hn hs (Nat.le_refl _), fun r hr => hr.unique (runs_from_start hn hs (Nat.le_refl _))⟩,
    fun r hr => ⟨fun fuel => hresult hr, ?_⟩, fun c outer h => ?_, fun s m m' h => ?_⟩
  · simp only [spellings?, hs, hresult hr (Nat.le_refl _)]
    rcases r with _ | ⟨text, returns, onPath, _ | ⟨s, rest⟩⟩ <;> rfl
  · have hpath := h.pathOf hn hs
    have hlen := length_le_positionCount hpath.nodup fun q hq => by
      obtain ⟨d, hd, rfl⟩ := List.mem_map.1 hq
      exact hpath.inside d hd
    rw [List.length_map] at hlen
    refine ⟨hpath.nodup, fun d hd => (hpath.inside d hd).length_le, hlen, fun c' hc hold => ?_⟩
    rw [List.map_cons, List.mem_cons, ← hpath.mem_onPath, ← Finset.mem_insert, ← hc.spec.1] at hold
    refine ⟨fun r => ⟨fun hr => hr.unique (.loop hold), ?_⟩, fun c'' hc' => hc'.not_mem_onPath hold⟩
    rintro rfl
    exact .loop hold
  · rw [h.eq_of_mem m' rfl]
    exact ⟨rfl, rfl, rfl⟩

/-- A token made of a fragment that calls itself, and a token that is signed by another fragment. -/
def nestedFragments : LexicalNetwork :=
  { states := #[⟨0, 0, .ruleStart, [.call 1 1]⟩, ⟨1, 0, .ruleStop, [.leave]⟩,
      ⟨2, 1, .ruleStart, [.consume (.symbol 'a') 3, .call 1 3]⟩, ⟨3, 1, .ruleStop, [.leave]⟩,
      ⟨4, 2, .ruleStart, [.call 3 8]⟩, ⟨5, 2, .ruleStop, [.leave]⟩,
      ⟨6, 3, .ruleStart, [.consume (.symbol '+') 7, .consume (.symbol '-') 7]⟩, ⟨7, 3, .ruleStop, [.leave]⟩,
      ⟨8, 2, .basic, [.consume (.symbol '1') 5]⟩]
    rules := #[⟨"NESTED", 0, 1⟩, ⟨"NEST", 2, 3⟩, ⟨"SIGNED", 4, 5⟩, ⟨"SIGN", 6, 7⟩] }

/-- The walk through the first token gives up when too many fragments are open.  The walk through the second one returns
with two spellings, and nothing else is left in the memory. -/
theorem walk_terminates_nestedFragments :
    (∃! r, nestedFragments.Runs (.visit 0) .empty r) ∧ nestedFragments.Runs (.visit 0) .empty none ∧
      nestedFragments.Runs (.visit 4) .empty (some ⟨[], [], ∅, ["+1", "-1"]⟩) := by
  have hn : nestedFragments.InRange := by decide
  obtain ⟨hends, hresult, -, -⟩ := walk_terminates hn (show nestedFragments.start? 0 = some 0 from rfl)
  obtain ⟨⟨r', hr', -⟩, hresult', -, hrestored⟩ := walk_terminates hn (show nestedFragments.start? 2 = some 4 from rfl)
  refine ⟨hends, ?_, ?_⟩
  · obtain ⟨r, hr, -⟩ := hends
    have hw : walk nestedFragments nestedFragments.walkFuel [] ⟨0, []⟩ [] [] = none := by decide +kernel
    rw [(hresult r hr).1 _ (Nat.le_refl _), Option.map_eq_none_iff] at hw
    rwa [hw] at hr
  · have hw : walk nestedFragments nestedFragments.walkFuel [] ⟨4, []⟩ [] [] = some ["+1", "-1"] := by cbv
    rw [(hresult' r' hr').1 _ (Nat.le_refl _), Option.map_eq_some_iff] at hw
    obtain ⟨⟨text, returns, onPath, found⟩, rfl, rfl⟩ := hw
    obtain ⟨rfl, rfl, rfl⟩ := hrestored _ _ _ hr'
    exact hr'

end Network

end Typeahead
