/-
The fence line of the Raft model over whole runs.

The log of a run is the list of its successful elections.
-/
import GoServices.Raft.Cluster

namespace GoServices.Raft

open List

structure Inv (p : Cluster × List Won) : Prop where
  leader : ∀ m ∈ p.1.nodes, m.state = .leader → ({ id := m.id, term := m.term } : Won) ∈ p.2
  sorted : p.2.Pairwise fun v w => v.term < w.term
  line : p.1.committedTrm = (p.2.getLast?.map Won.term).getD 0
  reached : ∀ w ∈ p.2, ∃ m ∈ p.1.nodes, w.term ≤ m.term

theorem inv_new (n : Nat) : Inv (Cluster.new n, []) where
  leader m hm h := by
    obtain ⟨i, -, rfl⟩ := mem_map.mp hm
    cases h
  sorted := Pairwise.nil
  line := rfl
  reached w hw := by cases hw

variable {p q : Cluster × List Won} {a : Label} {as : List Label}

theorem inv_step (hp : Inv p) (h : logged step emit p a = some q) : Inv q := by
  obtain ⟨hstep, hlog⟩ := logged_eq_some.mp h
  obtain ⟨⟨f, hnodes, hf⟩, hline⟩ := clusterStep_of_step hstep
  refine ⟨fun m hm hl => ?_, ?_, ?_, fun w hw => ?_⟩
  · rw [hnodes] at hm
    obtain ⟨k, hk, rfl⟩ := mem_map.mp hm
    rw [hlog, mem_append]
    rcases (hf k hk).leader hl with ⟨hlk, hterm⟩ | hwon
    · rw [hterm, (hf k hk).id]
      exact .inl (hp.leader k hk hlk)
    · exact .inr hwon
  · rw [hlog]
    rcases hline with ⟨he, -⟩ | ⟨w, he, -, hmax, -⟩
    · rw [he, append_nil]
      exact hp.sorted
    rw [he]
    refine pairwise_append.mpr ⟨hp.sorted, pairwise_singleton _ _, ?_⟩
    intro v hv w' hw'
    rw [mem_singleton.mp hw']
    -- the new term is above every node, and some node has reached `v`
    obtain ⟨m, hm, hle⟩ := hp.reached v hv
    exact Nat.lt_of_le_of_lt hle (hmax m hm)
  · rw [hlog]
    rcases hline with ⟨he, hsame⟩ | ⟨w, he, hw, -⟩
    · rw [he, append_nil, hsame, hp.line]
    · rw [he, hw, getLast?_append, getLast?_singleton, Option.some_or]
      rfl
  rw [hlog, mem_append] at hw
  rcases hw with hw | hw
  · obtain ⟨m, hm, hle⟩ := hp.reached w hw
    refine ⟨f m, ?_, Nat.le_trans hle (hf m hm).term⟩
    rw [hnodes]
    exact mem_map.mpr ⟨m, hm, rfl⟩
  rcases hline with ⟨he, -⟩ | ⟨w', he, -, -, m, hm, -, hterm⟩
  · rw [he] at hw
    cases hw
  · rw [he, mem_singleton] at hw
    exact ⟨m, hm, Nat.le_of_eq (by rw [hw, hterm])⟩

theorem inv_run {n : Nat} (h : run (logged step emit) (Cluster.new n, []) as = some p) : Inv p :=
  run_invariant (fun _ _ _ hp hstep => inv_step hp hstep) (inv_new n) h

/-! ## Who can write -/

theorem eq_getLast_of_le {log : List Won} (hs : log.Pairwise fun v w => v.term < w.term) {v w : Won}
    (hv : v ∈ log) (hw : log.getLast? = some w) (hle : w.term ≤ v.term) :
    v = w := by
  obtain ⟨l, rfl⟩ := getLast?_eq_some_iff.mp hw
  rcases mem_append.mp hv with hv | hv
  · have hlt := (pairwise_append.mp hs).2.2 v hv w (mem_singleton_self w)
    omega
  · exact mem_singleton.mp hv

theorem Inv.write (hp : Inv p) {i : Nat} (h : p.1.write i = some (.ok ())) :
    ∃ w, p.2.getLast? = some w ∧ w.id = i := by
  unfold Cluster.write at h
  split at h
  · cases h
  rename_i m hm
  split at h
  · cases h
  rename_i hpass
  simp only [not_or, not_not, Nat.not_lt] at hpass
  have hmem := hp.leader m (mem_iff_getElem?.mpr ⟨i, hm⟩) hpass.1
  cases hlast : p.2.getLast? with
  | none =>
    rw [getLast?_eq_none_iff.mp hlast] at hmem
    cases hmem
  | some w =>
    have hline := hp.line
    rw [hlast] at hline
    have hle : w.term ≤ m.term := Nat.le_trans (Nat.le_of_eq hline.symm) hpass.2
    have hw := eq_getLast_of_le hp.sorted hmem hlast hle
    exact ⟨w, rfl, by rw [← hw, p.1.ids i m hm]⟩

/-! ## Terms along a run -/

structure Advances (p q : Cluster × List Won) : Prop where
  nodes : ∀ (i : Nat) (m : Node), p.1.nodes[i]? = some m →
    ∃ m', q.1.nodes[i]? = some m' ∧ m.term ≤ m'.term
  line : p.1.committedTrm ≤ q.1.committedTrm

theorem Advances.refl (p : Cluster × List Won) : Advances p p :=
  ⟨fun _ m h => ⟨m, h, Nat.le_refl _⟩, Nat.le_refl _⟩

theorem Advances.trans {r : Cluster × List Won} (h₁ : Advances p q) (h₂ : Advances q r) :
    Advances p r := by
  refine ⟨fun i m hm => ?_, Nat.le_trans h₁.line h₂.line⟩
  obtain ⟨m', hm', hle⟩ := h₁.nodes i m hm
  obtain ⟨m'', hm'', hle'⟩ := h₂.nodes i m' hm'
  exact ⟨m'', hm'', Nat.le_trans hle hle'⟩

theorem Inv.committedTrm_le (hp : Inv p) {t : Nat} (ht : ∀ m ∈ p.1.nodes, m.term ≤ t) :
    p.1.committedTrm ≤ t := by
  rw [hp.line]
  cases hlast : p.2.getLast? with
  | none => exact Nat.zero_le t
  | some w =>
    obtain ⟨m, hm, hle⟩ := hp.reached w (mem_of_getLast? hlast)
    exact Nat.le_trans hle (ht m hm)

theorem advances_step (hp : Inv p) (h : logged step emit p a = some q) :
    Advances p q := by
  obtain ⟨⟨f, hnodes, hf⟩, hline⟩ := clusterStep_of_step (logged_eq_some.mp h).1
  refine ⟨fun i m hm => ?_, ?_⟩
  · refine ⟨f m, ?_, (hf m (mem_iff_getElem?.mpr ⟨i, hm⟩)).term⟩
    rw [hnodes, getElem?_map, hm, Option.map_some]
  rcases hline with ⟨-, hsame⟩ | ⟨w, -, hw, hmax, -⟩
  · exact Nat.le_of_eq hsame.symm
  · rw [hw]
    exact hp.committedTrm_le fun m hm => Nat.le_of_lt (hmax m hm)

theorem advances_run (hp : Inv p) (h : run (logged step emit) p as = some q) :
    Advances p q :=
  run_relates (fun _ _ _ hp hstep => inv_step hp hstep)
    (fun _ _ _ hp hstep => advances_step hp hstep) Advances.refl Advances.trans hp h

theorem elect_minority {c : Cluster} {id : Nat} {m : Node} (hm : c.nodes[id]? = some m)
    (hminor : 2 * c.reachable m ≤ c.nodes.length) :
    ∃ c', c.elect id = some (c', .error .noQuorum) := by
  rcases c.elect_cases hm with ⟨-, c', h, -⟩ | ⟨hmaj, -⟩
  · exact ⟨c', h⟩
  · unfold Cluster.majority at hmaj
    omega

/-- After any run `as` of a new cluster and any continuation `bs`: only the last
winner can pass `Write`, so at most one node can; no term and no fence line falls
along `bs`; the terms of the elections won grow strictly; and a candidate whose
group is not a strict majority loses. -/
theorem write_only_by_last_winner {n : Nat} {as bs : List Label} {p q : Cluster × List Won}
    (hp : run (logged step emit) (Cluster.new n, []) as = some p)
    (hq : run (logged step emit) p bs = some q) :
    (∀ i, p.1.write i = some (.ok ()) → ∃ w, p.2.getLast? = some w ∧ w.id = i) ∧
    (∀ i j, p.1.write i = some (.ok ()) → p.1.write j = some (.ok ()) → i = j) ∧
    (∀ (i : Nat) (m : Node), p.1.nodes[i]? = some m →
      ∃ m', q.1.nodes[i]? = some m' ∧ m.term ≤ m'.term) ∧
    p.1.committedTrm ≤ q.1.committedTrm ∧
    p.2.Pairwise (fun v w => v.term < w.term) ∧
    (∀ (id : Nat) (m : Node), p.1.nodes[id]? = some m → 2 * p.1.reachable m ≤ p.1.nodes.length →
      ∃ c', p.1.elect id = some (c', .error .noQuorum)) := by
  have hinv := inv_run hp
  have hadv := advances_run hinv hq
  refine ⟨fun i hi => hinv.write hi, fun i j hi hj => ?_, hadv.nodes, hadv.line, hinv.sorted,
    fun id m hm hminor => elect_minority hm hminor⟩
  obtain ⟨w, hw, rfl⟩ := hinv.write hi
  obtain ⟨w', hw', rfl⟩ := hinv.write hj
  rw [hw] at hw'
  rw [Option.some.inj hw']

theorem write_only_by_last_winner_split :
    ∃ p ∈ run (logged step emit) (Cluster.new 3, [])
        [.elect 0, .partition [0], .elect 1, .elect 0, .heal],
      ∃ q ∈ run (logged step emit) p [.elect 2],
        p.1.write 1 = some (.ok ()) ∧ (∃ w, p.2.getLast? = some w ∧ w.id = 1) ∧
          p.1.committedTrm ≤ q.1.committedTrm := by
  refine exists_some_imp (A := fun p => ∃ q ∈ run (logged step emit) p [.elect 2], p.1.write 1 =
    some (.ok ()))
    (by decide) fun p hp ⟨q, hq, hw⟩ => ?_
  have h := write_only_by_last_winner hp hq
  exact ⟨q, hq, hw, h.1 1 hw, h.2.2.2.1⟩

end GoServices.Raft
