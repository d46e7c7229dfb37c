/-
**What an interchange makes of the code.**

An interchange copies and drops nothing.  Where it splits a block there is a seam: the block goes on
to a new block with a branch, and the instructions that were in the block are now those before the
branch and those of the new block.  All other blocks keep their names and their instructions, and
an instruction keeps its result, what it does and its operands; only the targets of branches may be
others.

A split makes one seam, moves and new targets make none, and the seams of two edits add up if the
second one cuts other blocks than the first (`Func.Seamed.trans`).  The two splits of an interchange
do, since the outer exit is not the outer preheader.

Main definitions:

* `LoopSwap.Seam` — a block, the part that is split off and the branch between the two;
* `LoopSwap.Func.Seamed` — a function cut along seams, with other targets.

Main results:

* `LoopSwap.Workspace.exists_seams` — an interchange cuts along seams, one for each new block;
* `LoopSwap.Workspace.interchange_seamed` — so it does after any run on what was read.
-/

import LoopSwap.Proofs.Interchange.Frame

set_option relaxedAutoImplicit false
set_option autoImplicit false

namespace LoopSwap

/-! ### Seams -/

/-- Where a block is split: the block, the part that is split off and the branch between the
two. -/
structure Seam where
  block : BlockId
  part : BlockId
  branch : InstId

namespace Func

/-- `g` is `f` cut along `seams`, perhaps with another order of the blocks and other targets.  The
new blocks are the parts that are split off, and the new instructions are the branches to them,
which have no results. -/
structure Seamed (f g : Func) (seams : List Seam) : Prop extends Extended f g where
  blockIds : g.blockIds = f.blockIds ++ seams.map (·.part)
  layout : g.layout.Perm (f.layout ++ seams.map (·.part))
  arenaInsts : g.arenaInsts = f.arenaInsts ++ seams.map (·.branch)
  branch : ∀ s ∈ seams, g.resultName? s.branch = none ∧ ∃ t, g.op? s.branch = some (.br t)
  kept : ∀ b ∈ f.blockIds, b ∉ seams.map (·.block) → g.block? b = f.block? b
  cut : ∀ s ∈ seams, s.block ∈ f.blockIds ∧ g.blockName? s.block = f.blockName? s.block ∧
    ∃ head, g.blockInsts s.block = head ++ [s.branch] ∧
      f.blockInsts s.block = head ++ g.blockInsts s.part

variable {f f' g k : Func} {b n x : BlockId} {cut : Nat} {seams seams' : List Seam}

namespace Seamed

theorem refl (f : Func) : f.Seamed f [] := by
  refine ⟨.refl f, ?_, ?_, ?_, List.forall_mem_nil _, fun _ _ _ => rfl, List.forall_mem_nil _⟩
  · exact (List.append_nil _).symm
  · rw [List.map_nil, List.append_nil]
  · exact (List.append_nil _).symm

/-- The seams of two edits add up, if the second one cuts old blocks that the first one does not
cut. -/
theorem trans (h : f.Seamed g seams) (h' : g.Seamed k seams')
    (hold : ∀ s ∈ seams', s.block ∈ f.blockIds ∧ s.block ∉ seams.map (·.block)) :
    f.Seamed k (seams ++ seams') := by
  have hids : ∀ b ∈ f.blockIds, b ∈ g.blockIds := fun b hb =>
    h.blockIds ▸ List.mem_append_left _ hb
  have hparts : ∀ s ∈ seams, s.part ∈ g.blockIds := fun s hs =>
    h.blockIds ▸ List.mem_append_right _ (List.mem_map_of_mem hs)
  have hnew : ∀ s ∈ seams, s.part ∉ f.blockIds := fun s hs hmem =>
    List.disjoint_of_nodup_append (h.blockIds ▸ g.nodup_blockIds) hmem (List.mem_map_of_mem hs)
  -- the second edit leaves alone what the first one made
  have hblock : ∀ s ∈ seams, s.block ∉ seams'.map (·.block) := by
    intro s hs hmem
    obtain ⟨s', hs', heq⟩ := List.mem_map.1 hmem
    exact (hold s' hs').2 (heq ▸ List.mem_map_of_mem hs)
  have hpart : ∀ s ∈ seams, s.part ∉ seams'.map (·.block) := by
    intro s hs hmem
    obtain ⟨s', hs', heq⟩ := List.mem_map.1 hmem
    exact hnew s hs (heq ▸ (hold s' hs').1)
  refine ⟨h.toExtended.trans h'.toExtended, ?_, ?_, ?_, fun s hs => ?_, fun b hb hcut => ?_,
    fun s hs => ?_⟩
  · rw [h'.blockIds, h.blockIds, List.map_append, List.append_assoc]
  · rw [List.map_append, ← List.append_assoc]
    exact h'.layout.trans (h.layout.append_right _)
  · rw [h'.arenaInsts, h.arenaInsts, List.map_append, List.append_assoc]
  · rcases List.mem_append.1 hs with hs | hs
    · obtain ⟨hname, t, ht⟩ := h.branch s hs
      obtain ⟨u, hu⟩ := h'.op s.branch _ ht
      exact ⟨(h'.resultName? s.branch).trans hname, u t, hu⟩
    · exact h'.branch s hs
  · rw [List.map_append, List.mem_append, not_or] at hcut
    exact (h'.kept b (hids b hb) hcut.2).trans (h.kept b hb hcut.1)
  · rcases List.mem_append.1 hs with hs | hs
    · obtain ⟨hmem, hname, head, hg, hf⟩ := h.cut s hs
      have hb := h'.kept s.block (hids _ hmem) (hblock s hs)
      have hp := h'.kept s.part (hparts s hs) (hpart s hs)
      refine ⟨hmem, ?_, head, ?_, ?_⟩
      · rw [← hname, blockName?, hb, blockName?]
      · rw [← hg, blockInsts, hb, blockInsts]
      · rw [hf, blockInsts, blockInsts, hp]
    · obtain ⟨-, hname, head, hk, hg⟩ := h'.cut s hs
      obtain ⟨hmem, hfree⟩ := hold s hs
      have hb := h.kept s.block hmem hfree
      refine ⟨hmem, ?_, head, hk, ?_⟩
      · rw [hname, blockName?, hb, blockName?]
      · rw [← hg, blockInsts, blockInsts, hb]

/-! ### The edits -/

/-- A split makes a seam. -/
theorem split? (hf : f.Intact) (h : f.split? b cut = some (f', n)) :
    f.Seamed f' [⟨b, n, ⟨f.insts.size⟩⟩] := by
  have hb := hf.split?_mem h
  refine ⟨.split? hf h, blockIds_split? h, ?_, arenaInsts_split? h, fun s hs => ?_,
    fun a ha hab => ?_, fun s hs => ?_⟩
  · rw [layout_split? h]
    exact (insertAfter_perm n b _).trans (List.perm_append_singleton n _).symm
  · obtain rfl := List.mem_singleton.1 hs
    refine ⟨?_, n, op?_split?_branch h⟩
    rw [Func.resultName?, inst?_split?_branch h]
    rfl
  · refine block?_split?_of_ne h (fun heq => hab (List.mem_singleton.2 heq)) ?_
    exact hf.split?_ne h (hf.layout_perm.mem_iff.2 ha)
  · obtain rfl := List.mem_singleton.1 hs
    refine ⟨hf.layout_perm.mem_iff.1 hb, blockName?_split?_of_ne h (hf.split?_ne h hb), _,
      blockInsts_split?_self h, ?_⟩
    rw [blockInsts_split?_new h, List.take_append_drop]

/-- Relinking makes no seam. -/
theorem apply {r : Relinking} (h : f.Reordered (r.reorder f)) : f.Seamed (r.apply f) [] := by
  have hblocks := Relinking.blocks_apply h
  have harena : Func.arenaInsts (r.apply f) = f.arenaInsts := by
    unfold Relinking.apply
    rw [arenaInsts_retargetAll, Func.arenaInsts, h.insts, Func.arenaInsts]
  refine ⟨.apply h, ?_, ?_, ?_, List.forall_mem_nil _, fun b _ _ => ?_, List.forall_mem_nil _⟩
  · rw [Func.blockIds, hblocks]
    exact (List.append_nil _).symm
  · rw [r.layout_apply, List.map_nil, List.append_nil]
    exact h.layout
  · rw [harena]
    exact (List.append_nil _).symm
  · rw [Func.block?, hblocks, Func.block?]

end Seamed

end Func

/-! ### The splits of a plan -/

namespace Planned

variable {f f₁ f₂ : Func} {outer inner : Nat} {l m : Loop} {p : Plan} {q c : BlockId}

theorem exists_seams_splitEntry (hf : f.Flowing) (h : Planned f outer inner l m p)
    (h₁ : f.splitEntry? p.outerPreheader = some (f₁, q)) :
    ∃ seams, f.Seamed f₁ seams ∧ (∀ s ∈ seams, s.block = p.outerPreheader) ∧
      seams.map (·.part) = if p.preheaderPred = none then [q] else [] := by
  unfold Func.splitEntry? at h₁
  rcases h.preheaderPred with ⟨hentry, hnone⟩ | ⟨hentry, a, -, hsome⟩
  · rw [if_pos hentry] at h₁
    refine ⟨_, .split? hf.toIntact h₁, fun s hs => ?_, (if_pos hnone).symm⟩
    rw [List.mem_singleton.1 hs]
  · rw [if_neg hentry] at h₁
    cases h₁
    refine ⟨[], .refl f, List.forall_mem_nil _, (if_neg ?_).symm⟩
    rw [hsome]
    exact Option.some_ne_none a

theorem exists_seams_splitExit (hf : f.Flowing) (h : Planned f outer inner l m p)
    (h₁ : f.splitEntry? p.outerPreheader = some (f₁, q))
    (h₂ : f₁.splitExit? p.outerExit = some (f₂, c)) :
    ∃ seams, f₁.Seamed f₂ seams ∧ (∀ s ∈ seams, s.block = p.outerExit) ∧
      seams.map (·.part) = if p.continuation = none then [c] else [] := by
  obtain ⟨hf₁, -, -⟩ := h.splitEntry hf h₁
  rw [h.splitExit?_eq hf h₁] at h₂
  cases hc : p.continuation with
  | some t =>
      rw [hc] at h₂
      cases h₂
      exact ⟨[], .refl f₁, List.forall_mem_nil _, (if_neg (Option.some_ne_none c)).symm⟩
  | none =>
      rw [hc] at h₂
      refine ⟨_, .split? hf₁.toIntact h₂, fun s hs => ?_, (if_pos rfl).symm⟩
      rw [List.mem_singleton.1 hs]

end Planned

/-! ### Interchanges -/

namespace Workspace

variable {w w' : Workspace} {outer inner : Nat} {done : Interchanged}

/-- An interchange cuts along seams, one for each new block. -/
theorem exists_seams (hf : w.func.Flowing) (h : w.interchange outer inner = (w', .ok done)) :
    ∃ seams, w.func.Seamed w'.func seams ∧ seams.map (·.part) = done.materialized := by
  obtain ⟨l, m, p, f₁, q, f₂, c, hp, h₁, h₂, hfunc, hmade⟩ := exists_planned hf h
  obtain ⟨hf₂, -, -⟩ := hp.splitExit hf h₁ h₂
  obtain ⟨seams, hs, hblock, hparts⟩ := hp.exists_seams_splitEntry hf h₁
  obtain ⟨seams', hs', hblock', hparts'⟩ := hp.exists_seams_splitExit hf h₁ h₂
  have horder := (hp.exchange hf h₁ h₂).reordered hf₂
  have hnest := hp.nest hf
  have hold : ∀ s ∈ seams', s.block ∈ w.func.blockIds ∧ s.block ∉ seams.map (·.block) := by
    intro s hmem
    have hexit := hnest.outer.exit_reachable.listed
    rw [hblock' s hmem]
    refine ⟨hf.layout_perm.mem_iff.1 hexit, fun hcut => ?_⟩
    obtain ⟨s', hs', heq⟩ := List.mem_map.1 hcut
    exact hnest.outerExit_ne_outerPreheader (heq.symm.trans (hblock s' hs'))
  refine ⟨seams ++ seams', ?_, ?_⟩
  · have hall := (hs.trans hs' hold).trans (.apply horder) (List.forall_mem_nil _)
    rw [List.append_nil] at hall
    exact hfunc ▸ hall
  · rw [List.map_append, hparts, hparts', hmade]
    rfl

/-- After any run on what was read from a text, an interchange copies, drops and edits nothing but
the targets of branches, and what it adds is a branch and a block for each seam. -/
theorem interchange_seamed {text : String} {p : Program} (hread : Program.read text = .ok p)
    (hw : w.func ∈ p.functions) (steps : List Step)
    (h : (w.run steps).interchange outer inner = (w', .ok done)) :
    ∃ seams, (w.run steps).func.Seamed w'.func seams ∧
      seams.map (·.part) = done.materialized :=
  exists_seams (legible_run steps (Program.legible_of_read hread w.func hw)).1.toFlowing h

/-- The entry and the outer exit of two nested loops are cut. -/
theorem interchange_seamed_counted :
    Program.read countedText = .ok ⟨[counted]⟩ ∧ ∃ w' done,
      (run ⟨counted, .zero⟩ [.interchange 1 0]).interchange 0 1 = (w', .ok done) ∧
      ∃ seams, (run ⟨counted, .zero⟩ [.interchange 1 0]).func.Seamed w'.func seams ∧
        seams.map (·.part) = [⟨9⟩, ⟨10⟩] := by
  have hread : Program.read countedText = .ok ⟨[counted]⟩ := by decide +kernel
  have hdone : (((run ⟨counted, .zero⟩ [.interchange 1 0]).interchange 0 1).2.map
      (·.materialized)) = .ok [⟨9⟩, ⟨10⟩] := by decide +kernel
  cases h : (run ⟨counted, .zero⟩ [.interchange 1 0]).interchange 0 1 with
  | mk w' result =>
      rw [h] at hdone
      cases result with
      | error e => cases hdone
      | ok done =>
          have hmade : done.materialized = [⟨9⟩, ⟨10⟩] := Except.ok.inj hdone
          have hseams := interchange_seamed hread (List.mem_singleton_self _) [.interchange 1 0] h
          rw [hmade] at hseams
          exact ⟨hread, w', done, rfl, hseams⟩

end Workspace

end LoopSwap
