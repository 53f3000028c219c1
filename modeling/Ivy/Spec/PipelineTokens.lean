import Ivy.Spec.PipelineInvariant

/-!
# Heap blocks of the pipeline

Every token allocated so far is held in one place or released. A step moves tokens,
makes new ones or, in one branch of the decoder, loses one (`step_moves`): when exactly
one of the two allocations for a block succeeds, what was allocated is forgotten.
-/

namespace Ivy.Spec

open Ivy.Native Ivy.Lts

variable {s s' : Pipeline}

/-! ## Places -/

def ctlTokens : CtlPc → List Nat
  | .holding f | .sending f => frameTokens (some f)
  | .stopFreeDecode _ m => frameTokens m
  | .stopFreeDraw _ m => blockTokens m
  | _ => []

def decTokens : DecPc → List Nat
  | .got m | .locked m => frameTokens m
  | .decoding f _ | .free f => frameTokens (some f)
  | .sending f _ b => frameTokens (some f) ++ blockTokens (some b)
  | _ => []

def drwTokens : DrwPc → List Nat
  | .got m | .locked m => blockTokens m
  | .draw b | .free b => blockTokens (some b)
  | _ => []

/-- The tokens in all places: the player, the decode queue, the decode task, the draw
    queue, the draw task, and those released. -/
def tokens (s : Pipeline) : List Nat :=
  ctlTokens s.ctl ++ s.decodeQueue.flatMap frameTokens ++ decTokens s.dec ++
    s.drawQueue.flatMap blockTokens ++ drwTokens s.drw ++ s.released

/-- Every token allocated so far is in exactly one place, or released, and that once. -/
def Accounted (s : Pipeline) : Prop :=
  (tokens s).Perm (List.range s.next)

/-! ## Steps -/

/-- The tokens a step allocates. -/
def made (s : Pipeline) : Act → List Nat
  | .ctl (.read (some _)) => [s.next]
  | .dec (.block true true) => [s.next, s.next + 1]
  | .dec (.block true false) | .dec (.block false true) => [s.next]
  | _ => []

/-- The tokens a step forgets. -/
def lost (s : Pipeline) : Act → List Nat
  | .dec (.block true false) | .dec (.block false true) => [s.next]
  | _ => []

/-- What one step does to the tokens: those it makes join those there were, except the
    lost ones. -/
structure Moves (s : Pipeline) (a : Act) (s' : Pipeline) : Prop where
  perm : (tokens s' ++ lost s a).Perm (tokens s ++ made s a)
  next : List.range s'.next = List.range s.next ++ made s a

/-- A step that makes and loses nothing: it is enough to compare how often a token occurs
    before and after. -/
theorem Moves.of_count {a : Act} (hmade : made s a = []) (hlost : lost s a = [])
    (hnext : s'.next = s.next) (h : ∀ t, (tokens s').count t = (tokens s).count t) :
    Moves s a s' := by
  refine ⟨?_, ?_⟩
  · rw [hmade, hlost, List.append_nil, List.append_nil]
    exact List.perm_iff_count.mpr h
  · rw [hmade, hnext, List.append_nil]

/-- The control flow moves tokens and loses none, -/
theorem CtlStep.moves {c : Choice} (h : CtlStep s c s') (hown : Owned s)
    (hok : Service s (.ctl c)) : Moves s (.ctl c) s' := by
  cases h with
  | beginDecode ok hpc =>
    refine .of_count rfl rfl rfl fun t => ?_
    cases ok <;> simp only [tokens, hpc, hown.noDec hpc, ctlTokens, decTokens,
      if_true, Bool.false_eq_true, if_false]
  | beginDraw ok hpc =>
    refine .of_count rfl rfl rfl fun t => ?_
    cases ok <;> simp only [tokens, hpc, hown.noDrw' hpc, ctlTokens, drwTokens,
      if_true, Bool.false_eq_true, if_false]
  | read n hpc =>
    refine ⟨List.perm_iff_count.mpr fun t => ?_, List.range_succ⟩
    simp only [tokens, made, lost, hpc, ctlTokens, frameTokens, List.count_append,
      List.count_cons, List.count_nil]
    omega
  | readNone hpc => exact .of_count rfl rfl rfl fun _ => rfl
  | destroy hpc => exact hok.elim
  | send f hpc hroom =>
    refine .of_count rfl rfl rfl fun t => ?_
    simp only [tokens, hpc, ctlTokens, List.flatMap_append, List.flatMap_cons,
      List.flatMap_nil, List.count_append, List.count_nil]
    omega
  | drainDecode ex m q hpc hq | drainDraw ex m q hpc hq =>
    refine .of_count rfl rfl rfl fun t => ?_
    simp only [tokens, hpc, hq, ctlTokens, List.flatMap_cons, List.count_append,
      List.count_nil]
    omega
  | freeDecode ex m hpc | freeDraw ex m hpc =>
    refine .of_count rfl rfl rfl fun t => ?_
    simp only [tokens, hpc, ctlTokens, List.count_append, List.count_nil]
    omega
  | skip f hpc =>
    refine .of_count rfl rfl rfl fun t => ?_
    simp only [tokens, hpc, ctlTokens, frameTokens, List.count_append,
      List.count_cons, List.count_nil]
    omega
  | sendDecode hpc hroom | sendDraw hpc hroom =>
    -- the exit signal carries no token
    refine .of_count rfl rfl rfl fun t => ?_
    simp only [tokens, hpc, ctlTokens, List.flatMap_append, List.flatMap_cons,
      List.flatMap_nil, frameTokens, blockTokens, List.append_nil]
  | unlockDecode ex ret hpc =>
    refine .of_count rfl rfl rfl fun t => ?_
    cases ex <;> simp only [tokens, hpc, ctlTokens, if_true, Bool.false_eq_true,
      if_false]
  | _ =>
    -- the thread holds the same tokens as before
    refine .of_count rfl rfl rfl fun t => ?_
    simp only [tokens, ‹s.ctl = _›, ctlTokens]

/-- the decode task loses those of a block it has no memory for, -/
theorem DecStep.moves {a : DecAct} (h : DecStep s a s') (hserv : Serving s) :
    Moves s (.dec a) s' := by
  cases h with
  | block f n hpc =>
    -- record and pixels are new, and held by the task
    refine ⟨List.perm_iff_count.mpr fun t => ?_, ?_⟩
    · simp only [tokens, made, lost, hpc, decTokens, blockTokens, List.count_append,
        List.count_cons, List.count_nil]
      omega
    · rw [made, List.range_succ, List.range_succ, List.append_assoc]; rfl
  | noPixels f n hpc =>
    -- the record is made and lost in the same step
    refine ⟨List.perm_iff_count.mpr fun t => ?_, List.range_succ⟩
    simp only [tokens, made, lost, hpc, decTokens]
  | noRecord f n pixels hpc =>
    cases pixels with
    | true => exact ⟨List.Perm.refl _, List.range_succ⟩
    | false => exact ⟨List.Perm.refl _, (List.append_nil _).symm⟩
  | receive m q hpc hq =>
    refine .of_count rfl rfl rfl fun t => ?_
    simp only [tokens, hpc, hq, decTokens, List.flatMap_cons, List.count_append,
      List.count_nil]
    omega
  | send f n b hpc hroom =>
    refine .of_count rfl rfl rfl fun t => ?_
    simp only [tokens, hpc, decTokens, List.flatMap_append, List.flatMap_cons,
      List.flatMap_nil, List.count_append, List.count_nil]
    omega
  | free f hpc =>
    refine .of_count rfl rfl rfl fun t => ?_
    simp only [tokens, hpc, decTokens, frameTokens, List.count_append,
      List.count_cons, List.count_nil]
    omega
  | noJpegDec f hpc hj => exact .of_count rfl rfl rfl fun _ => rfl
  | signal hpc | quitUnlock hpc | quitQueue hpc | quitBits hpc | quitRead hpc =>
    -- only an exit signal leads here
    have hdec := hserv.dec
    rw [hpc] at hdec; exact nomatch hdec
  | _ =>
    refine .of_count rfl rfl rfl fun t => ?_
    simp only [tokens, ‹s.dec = _›, decTokens]

/-- and the draw task frees those it has drawn. -/
theorem DrwStep.moves (h : DrwStep s s') (hserv : Serving s) : Moves s .drw s' := by
  cases h with
  | receive m q hpc hq =>
    refine .of_count rfl rfl rfl fun t => ?_
    simp only [tokens, hpc, hq, drwTokens, List.flatMap_cons, List.count_append,
      List.count_nil]
    omega
  | free b hpc =>
    refine .of_count rfl rfl rfl fun t => ?_
    simp only [tokens, hpc, drwTokens, List.count_append, List.count_nil]
    omega
  | signal hpc | quitUnlock hpc | quitQueue hpc | quitBits hpc | quitRead hpc =>
    -- a draw task that serves is at none of these places
    have hdrw := hserv.drw
    rw [hpc] at hdrw; exact nomatch hdrw
  | _ =>
    refine .of_count rfl rfl rfl fun t => ?_
    simp only [tokens, ‹s.drw = _›, drwTokens]

/-- Every step moves the tokens in this way. -/
theorem step_moves {a : Act} (hown : Owned s) (hserv : Serving s) (hok : Service s a)
    (h : s.step a = some s') : Moves s a s' := by
  obtain ⟨-, ⟨c, rfl, hstep⟩ | ⟨d, rfl, hstep⟩ | ⟨rfl, hstep⟩⟩ := step_cases h
  · exact hstep.moves hown hok
  · exact hstep.moves hserv
  · exact hstep.moves hserv

/-! ## Runs -/

/-- Exactly one of the two allocations for a block succeeds. -/
def loses : Act → Bool
  | .dec (.block record pixels) => record != pixels
  | _ => false

/-- A step loses one token at most. -/
theorem length_lost (s : Pipeline) (a : Act) : (lost s a).length = if loses a then 1 else 0 := by
  cases a with
  | dec a =>
    cases a with
    | block record pixels => cases record <;> cases pixels <;> rfl
    | _ => rfl
  | _ => rfl

/-- Along a run, the tokens in all places and the lost ones are those allocated. -/
theorem run_tokens {acts : List Act} (hrun : Run Pipeline.step Service s acts s')
    (hown : Owned s) (hserv : Serving s) {l : List Nat}
    (hl : (tokens s ++ l).Perm (List.range s.next)) :
    ∃ l', (tokens s' ++ (l ++ l')).Perm (List.range s'.next) ∧
      l'.length = acts.countP loses := by
  -- `l` is what was lost before; the losses of the run are appended to it
  induction hrun generalizing l with
  | nil s => exact ⟨[], by simpa using hl, rfl⟩
  | @cons s s₁ s₂ a acts hok hstep _ ih =>
    have hmove := step_moves hown hserv hok hstep
    have hl₁ : (tokens s₁ ++ (l ++ lost s a)).Perm (List.range s₁.next) := by
      rw [hmove.next, List.perm_iff_count]
      intro t
      have h₁ := hmove.perm.count_eq t
      have h₂ := hl.count_eq t
      simp only [List.count_append] at h₁ h₂ ⊢
      omega
    obtain ⟨l', hperm, hlen⟩ := ih (step_owned hown hstep) (step_serving hserv hok hstep) hl₁
    refine ⟨lost s a ++ l', by rwa [List.append_assoc] at hperm, ?_⟩
    rw [List.length_append, length_lost, hlen, List.countP_cons]
    omega

/-- In a run of the player and both tasks, every token allocated so far is in exactly one
    place or released once, exactly if for no block only one of its two allocations has
    succeeded. -/
theorem accounted_iff {acts : List Act} (hrun : Run Pipeline.step Service .init acts s) :
    Accounted s ↔ ∀ record pixels, Act.dec (.block record pixels) ∈ acts → record = pixels := by
  obtain ⟨l, hperm, hlen⟩ := run_tokens hrun owned_init serving_init (l := []) (List.Perm.refl _)
  rw [List.nil_append] at hperm
  -- a token is lost where memory for the pixels is there and none for the record, or the other way
  -- round
  have hnone : acts.countP loses = 0 ↔
      ∀ record pixels, Act.dec (.block record pixels) ∈ acts → record = pixels := by
    rw [List.countP_eq_zero]
    constructor
    · intro h record pixels hmem
      simpa [loses] using h _ hmem
    · intro h a hmem
      cases a with
      | dec a =>
        cases a with
        | block record pixels => simpa [loses] using h record pixels hmem
        | _ => simp [loses]
      | _ => simp [loses]
  rw [← hnone, ← hlen]
  constructor
  · -- the places hold as many tokens as there are, so nothing is left for `l`
    intro haccounted
    have h₁ := hperm.length_eq
    have h₂ := haccounted.length_eq
    rw [List.length_append] at h₁
    omega
  · intro hzero
    rw [List.length_eq_zero_iff.mp hzero, List.append_nil] at hperm
    exact hperm

/-- One frame from the file to the screen. -/
theorem accounted_iff_playOne :
    ∃ s, exec Pipeline.step Service .init (startUp ++ playOne) = some s ∧ Accounted s := by
  have hexec : exec Pipeline.step Service .init (startUp ++ playOne) = some
      { Pipeline.init with
        ctl := .idle, dec := .receive, drw := .receive, decodeStopped := false
        drawStopped := false, decodeFinish := true, drawFinish := true, jpegDec := true
        next := 3, released := [2, 1, 0] } := by decide +kernel
  refine ⟨_, hexec, (accounted_iff (Run.of_exec hexec)).mpr fun record pixels hmem => ?_⟩
  obtain ⟨rfl, rfl⟩ : record = true ∧ pixels = true := by simpa [startUp, playOne] using hmem
  rfl

/-- The record of a block is allocated, its pixels are not: at the end of the frame only
    the frame itself is released, and token 1 is nowhere. -/
theorem not_accounted_noPixels :
    ∃ s, exec Pipeline.step Service .init (startUp ++
        [.ctl (.read (some 1)), .ctl .decode, .ctl .go, .dec .go, .dec .go, .dec .go,
          .dec (.block true false), .dec .go, .dec .go, .dec .go, .dec .go]) = some s ∧
      s.next = 2 ∧ tokens s = [0] ∧ ¬ Accounted s := by
  refine ⟨{ Pipeline.init with
    ctl := .idle, dec := .receive, drw := .receive, decodeStopped := false
    drawStopped := false, decodeFinish := true, jpegDec := true
    next := 2, released := [0] }, by decide +kernel, rfl, rfl, ?_⟩
  intro h
  exact absurd h.length_eq (by decide)

end Ivy.Spec
