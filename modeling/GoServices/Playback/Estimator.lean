/-
The HyperLogLog estimator of distinct accounts.

`Add` and `Merge` raise registers with loads and compare-and-swaps, and any number of calls
interleave.  A label is one atomic operation of a call and how it ended.
-/
import GoServices.Base.Run
import GoServices.Base.Table
import Mathlib

namespace GoServices.Playback.Estimator

open Finset

def registers : Nat := 2 ^ 14

def leadingZeros64 (x : UInt64) : Nat := if x = 0 then 64 else 63 - x.toNat.log2

section
variable (hash : String → UInt64)

/-- `idx` in `Add`. -/
def register (key : String) : Nat := (hash key >>> 50).toNat

/-- `rank` in `Add`. -/
def rank (key : String) : Nat := leadingZeros64 ((hash key <<< 14) ||| ((1 : UInt64) <<< 13)) + 1

def keysAt (keys : Finset String) (i : Nat) : Finset String :=
  keys.filter fun k => register hash k = i

def estimatorOf (keys : Finset String) (i : Nat) : Nat := (keysAt hash keys i).sup (rank hash)

end

inductive Op
  | add (key : String)
  | merge (source : Nat)

/-- The next operation of a call, with the register and the value to raise it to. -/
inductive Pc
  | read (i : Nat)
  | load (i value : Nat)
  | cas (i value cur : Nat)
  | done

structure Call where
  est : Nat
  op : Op
  pc : Pc

structure State where
  regs : Nat → Nat → Nat
  calls : Table Nat Call

/-- `read` is the load of the other estimator's register; `load` and `keep` are the load of the
call's own register that finds it smaller or large enough, `swap` and `retry` the
compare-and-swap that succeeds or fails. -/
inductive Label
  | start (n est : Nat) (op : Op)
  | read (n : Nat)
  | load (n : Nat)
  | keep (n : Nat)
  | swap (n : Nat)
  | retry (n : Nat)

def initial : State := ⟨fun _ _ => 0, .empty⟩

def State.Returned (s : State) (n : Nat) : Prop := ∃ c, s.calls.get? n = some c ∧ c.pc = .done

def State.move (s : State) (n : Nat) (c : Call) (pc : Pc) : State :=
  { s with calls := s.calls.set n { c with pc := pc } }

def State.raise (s : State) (est i value : Nat) : State :=
  { s with regs := fun e j => if e = est ∧ j = i then value else s.regs e j }

/-- `Add` returns, and `Merge` goes on to the next register. -/
def Op.after (i : Nat) : Op → Pc
  | .add _ => .done
  | .merge _ => if i + 1 < registers then .read (i + 1) else .done

def step (hash : String → UInt64) (s : State) : Label → Option State
  | .start n est op =>
    match s.calls.get? n, op with
    | some _, _ => none
    | none, .add key => some (s.move n ⟨est, op, .done⟩ (.load (register hash key) (rank hash key)))
    | none, .merge _ => some (s.move n ⟨est, op, .done⟩ (.read 0))
  | .read n => (s.calls.get? n).bind fun c =>
    match c.op, c.pc with
    | .merge o, .read i => some (s.move n c (.load i (s.regs o i)))
    | _, _ => none
  | .load n => (s.calls.get? n).bind fun c =>
    match c.pc with
    | .load i value =>
      let cur := s.regs c.est i
      if cur < value then some (s.move n c (.cas i value cur)) else none
    | _ => none
  | .keep n => (s.calls.get? n).bind fun c =>
    match c.pc with
    | .load i value => if value ≤ s.regs c.est i then some (s.move n c (c.op.after i)) else none
    | _ => none
  | .swap n => (s.calls.get? n).bind fun c =>
    match c.pc with
    | .cas i value cur =>
      if s.regs c.est i = cur then some ((s.raise c.est i value).move n c (c.op.after i)) else none
    | _ => none
  | .retry n => (s.calls.get? n).bind fun c =>
    match c.pc with
    | .cas i value cur => if s.regs c.est i ≠ cur then some (s.move n c (.load i value)) else none
    | _ => none

/-! ## The keys that reach an estimator -/

/-- A call as the labels show it: the register it is at, the keys it has for that register, and
the keys that it has to have brought when it returns. -/
structure Errand where
  est : Nat
  op : Op
  register : Nat
  keys : Finset String
  owed : Nat → Finset String

structure Trace where
  calls : Nat → Option Errand
  reached : Nat → Nat → Finset String

def Trace.update (t : Trace) (n : Nat) (f : Errand → Errand) : Trace :=
  { t with calls := fun m => if m = n then (t.calls m).map f else t.calls m }

def Errand.read (t : Trace) (w : Errand) : Errand :=
  match w.op with
  | .add _ => w
  | .merge o => { w with keys := t.reached o w.register }

def Errand.pass (w : Errand) : Errand := { w with register := w.register + 1, keys := ∅ }

/-- The call is through with its register, and its keys have reached the estimator. -/
def Trace.bring (t : Trace) (n : Nat) : Trace :=
  { t.update n Errand.pass with
    reached e i :=
      match t.calls n with
      | none => t.reached e i
      | some w =>
        if e = w.est ∧ i = w.register then t.reached e i ∪ w.keys else t.reached e i }

section
variable (hash : String → UInt64)

def Op.errand (t : Trace) (est : Nat) : Op → Errand
  | .add key => ⟨est, .add key, register hash key, {key}, keysAt hash {key}⟩
  | .merge o => ⟨est, .merge o, 0, ∅, t.reached o⟩

/-- The labels alone decide what has reached an estimator; the registers are not looked at. -/
def Trace.next (t : Trace) : Label → Trace
  | .start n est op =>
    match t.calls n with
    | some _ => t
    | none =>
      { t with calls := fun m => if m = n then some (op.errand hash t est) else t.calls m }
  | .read n => t.update n (Errand.read t)
  | .keep n | .swap n => t.bring n
  | .load _ | .retry _ => t

def trace (as : List Label) : Trace := as.foldl (Trace.next hash) ⟨fun _ => none, fun _ _ => ∅⟩

/-- The keys of register `i` that have reached the estimator. -/
def reached (as : List Label) : Nat → Nat → Finset String := (trace hash as).reached

/-- What a call brings to register `i` if the labels before it are `as`. -/
def Op.keys (as : List Label) (i : Nat) : Op → Finset String
  | .add key => keysAt hash {key} i
  | .merge o => reached hash as o i

def Holds (as : List Label) (e : Nat) (keys : Finset String) : Prop :=
  ∀ i, reached hash as e i = keysAt hash keys i

end

section
variable {hash : String → UInt64} {s s' : State} {t t' : Trace} {a : Label} {n i value : Nat}
  {w : Errand} {c : Call} {pc : Pc}

theorem trace_concat (as : List Label) (a : Label) :
    trace hash (as ++ [a]) = (trace hash as).next hash a := by
  simp [trace]

theorem reached_bring_of_some (hw : t.calls n = some w) (e i : Nat) : (t.bring n).reached e i =
    if e = w.est ∧ i = w.register then t.reached e i ∪ w.keys else t.reached e i := by
  simp only [Trace.bring, hw]

theorem reached_bring (t : Trace) (n e i : Nat) : t.reached e i ⊆ (t.bring n).reached e i := by
  cases hw : t.calls n with
  | none => simp only [Trace.bring, hw, Subset.refl]
  | some w =>
    rw [reached_bring_of_some hw]
    split
    · exact subset_union_left
    · exact Subset.refl _

theorem reached_next (t : Trace) (a : Label) (e i : Nat) :
    t.reached e i ⊆ (t.next hash a).reached e i := by
  cases a with
  | start n est op =>
    rw [Trace.next]
    split <;> exact Subset.refl _
  | keep n | swap n => exact reached_bring t n e i
  | read n | load n | retry n => exact Subset.refl _

theorem reached_append (as bs : List Label) (e i : Nat) :
    reached hash as e i ⊆ reached hash (as ++ bs) e i := by
  induction bs using List.reverseRecOn with
  | nil => rw [List.append_nil]
  | append_singleton bs a ih =>
    rw [← List.append_assoc, reached, reached, trace_concat]
    exact ih.trans (reached_next _ a e i)

variable {f : Errand → Errand} {regs : Nat → Nat → Nat} {op : Op}

theorem errand_update (hf : ∀ w, (f w).est = w.est ∧ (f w).owed = w.owed)
    (hw : t.calls n = some w) (m : Nat) :
    ∃ v, (t.update m f).calls n = some v ∧ v.est = w.est ∧ v.owed = w.owed := by
  dsimp only [Trace.update]
  split
  · exact ⟨f w, by rw [hw]; rfl, hf w⟩
  · exact ⟨w, hw, rfl, rfl⟩

theorem errand_next (hw : t.calls n = some w) (a : Label) :
    ∃ v, (t.next hash a).calls n = some v ∧ v.est = w.est ∧ v.owed = w.owed := by
  cases a with
  | start m est op =>
    rw [Trace.next]
    split
    · exact ⟨w, hw, rfl, rfl⟩
    · rename_i hfree
      have hne : n ≠ m := fun heq => by rw [heq, hfree] at hw; cases hw
      exact ⟨w, (if_neg hne).trans hw, rfl, rfl⟩
  | read m =>
    refine errand_update (fun w => ?_) hw m
    rw [Errand.read]
    split <;> exact ⟨rfl, rfl⟩
  | keep m | swap m => exact errand_update (f := Errand.pass) (fun _ => ⟨rfl, rfl⟩) hw m
  | load m | retry m => exact ⟨w, hw, rfl, rfl⟩

/-- The later labels change neither the estimator of a call nor what the call owes. -/
theorem errand_append {as : List Label} (hw : (trace hash as).calls n = some w) (bs : List Label) :
    ∃ v, (trace hash (as ++ bs)).calls n = some v ∧ v.est = w.est ∧ v.owed = w.owed := by
  induction bs using List.reverseRecOn with
  | nil => exact ⟨w, by rwa [List.append_nil], rfl, rfl⟩
  | append_singleton bs a ih =>
    obtain ⟨v, hv, hest, howed⟩ := ih
    obtain ⟨u, hu, hest', howed'⟩ := @errand_next hash _ _ _ hv a
    exact ⟨u, by rw [← List.append_assoc, trace_concat, hu], hest'.trans hest, howed'.trans howed⟩

/-! ## Ranks -/

/-- The guard bit leaves at most 50 leading zeros. -/
theorem rank_le (key : String) : rank hash key ≤ 51 := by
  have hguard : 2 ^ 13 ≤ ((hash key <<< 14) ||| ((1 : UInt64) <<< 13)).toNat := by
    exact Nat.right_le_or
  have hne : ((hash key <<< 14) ||| ((1 : UInt64) <<< 13)).toNat ≠ 0 := by omega
  have hlog := (Nat.le_log2 hne).mpr hguard
  rw [rank, leadingZeros64]
  split
  · rename_i hzero
    rw [hzero] at hne
    exact absurd rfl hne
  · omega

theorem register_lt (key : String) : register hash key < registers := by
  have hlt := (hash key).toNat_lt
  rw [register, registers, UInt64.toNat_shiftRight, Nat.shiftRight_eq_div_pow]
  exact Nat.div_lt_of_lt_mul (by simpa using hlt)

/-! ## Calls -/

/-- The registers that the call is through with. -/
def Errand.Past (w : Errand) (j : Nat) : Prop :=
  match w.op with
  | .add _ => j ≠ w.register
  | .merge _ => j < w.register

/-- What holds of a call that is at its register, with the keys for it. -/
structure Working (hash : String → UInt64) (got : Nat → Nat → Finset String) (w : Errand)
    (i value : Nat) : Prop where
  register_eq : w.register = i
  value_eq : value = w.keys.sup (rank hash)
  placed : ∀ k ∈ w.keys, register hash k = i
  here : w.owed i ⊆ w.keys
  past : ∀ j, w.Past j → w.owed j ⊆ got w.est j
  source : ∀ o, w.op = .merge o → ∀ j, w.owed j ⊆ got o j

def Pc.Ok (hash : String → UInt64) (got : Nat → Nat → Finset String) (w : Errand) : Pc → Prop
  | .read i => w.register = i ∧ (∀ j < i, w.owed j ⊆ got w.est j) ∧
      ∀ o, w.op = .merge o → ∀ j, w.owed j ⊆ got o j
  | .load i value => Working hash got w i value
  | .cas i value cur => Working hash got w i value ∧ cur < value
  | .done => ∀ i < registers, w.owed i ⊆ got w.est i

structure Inv (hash : String → UInt64) (s : State) (t : Trace) : Prop where
  exact : ∀ e i, s.regs e i = (t.reached e i).sup (rank hash)
  placed : ∀ e i, ∀ k ∈ t.reached e i, register hash k = i
  calls : ∀ n c, s.calls.get? n = some c →
    ∃ w, t.calls n = some w ∧ w.est = c.est ∧ w.op = c.op ∧ c.pc.Ok hash t.reached w
  free : ∀ n, s.calls.get? n = none → t.calls n = none

variable {got got' : Nat → Nat → Finset String}

theorem Working.mono (hsub : ∀ e i, got e i ⊆ got' e i) (h : Working hash got w i value) :
    Working hash got' w i value :=
  ⟨h.register_eq, h.value_eq, h.placed, h.here, fun j hj => (h.past j hj).trans (hsub _ j),
    fun o ho j => (h.source o ho j).trans (hsub o j)⟩

theorem Pc.Ok.mono (hsub : ∀ e i, got e i ⊆ got' e i) (h : pc.Ok hash got w) :
    pc.Ok hash got' w := by
  cases pc with
  | read i =>
    exact ⟨h.1, fun j hj => (h.2.1 j hj).trans (hsub _ j),
      fun o ho j => (h.2.2 o ho j).trans (hsub o j)⟩
  | load i value => exact Working.mono hsub h
  | cas i value cur => exact ⟨h.1.mono hsub, h.2⟩
  | done => exact fun i hi => (h i hi).trans (hsub _ i)

/-- One call moves on, whatever its step does to the registers. -/
theorem Inv.move (h : Inv hash s t) (hexact : ∀ e i, regs e i = (t'.reached e i).sup (rank hash))
    (hplaced : ∀ e i, ∀ k ∈ t'.reached e i, register hash k = i)
    (hsub : ∀ e i, t.reached e i ⊆ t'.reached e i) (hother : ∀ m, m ≠ n → t'.calls m = t.calls m)
    (hw : t'.calls n = some w) (hest : w.est = c.est) (hop : w.op = c.op)
    (hpc : pc.Ok hash t'.reached w) : Inv hash ({ s with regs := regs }.move n c pc) t' := by
  refine ⟨hexact, hplaced, fun m d hd => ?_, fun m hm => ?_⟩
  · rw [State.move] at hd
    obtain ⟨rfl, rfl⟩ | ⟨hne, hd⟩ := Table.set_cases hd
    · exact ⟨w, hw, hest, hop, hpc⟩
    · obtain ⟨v, hv, hvest, hvop, hok⟩ := h.calls m d hd
      exact ⟨v, (hother m hne).trans hv, hvest, hvop, hok.mono hsub⟩
  · rw [State.move, Table.get?_set] at hm
    split at hm
    · cases hm
    · rename_i hne
      exact (hother m hne).trans (h.free m hm)

/-- A step that reads registers only. -/
theorem Inv.stay (h : Inv hash s t) (hreached : t'.reached = t.reached)
    (hother : ∀ m, m ≠ n → t'.calls m = t.calls m) (hw : t'.calls n = some w)
    (hest : w.est = c.est) (hop : w.op = c.op) (hpc : pc.Ok hash t.reached w) :
    Inv hash (s.move n c pc) t' :=
  h.move (by rw [hreached]; exact h.exact) (by rw [hreached]; exact h.placed)
    (fun e i => by rw [hreached]) hother hw hest hop (by rwa [hreached])

theorem ok_after (hwork : Working hash got w i value) (hgot : w.owed i ⊆ got w.est i) :
    (w.op.after i).Ok hash got w.pass := by
  have hpast := hwork.past
  have hsource := hwork.source
  cases hwork.register_eq
  rcases w with ⟨est, op, i, keys, owed⟩
  cases op with
  | add key =>
    intro j _
    by_cases hj : j = i
    · exact hj ▸ hgot
    · exact hpast j hj
  | merge o =>
    have hnext : ∀ j < i + 1, owed j ⊆ got est j := by
      intro j hj
      obtain hlt | rfl := Nat.lt_succ_iff_lt_or_eq.mp hj
      · exact hpast j hlt
      · exact hgot
    rw [Op.after]
    split
    · exact ⟨rfl, hnext, hsource⟩
    · rename_i hlast
      exact fun j hj => hnext j (hj.trans_le (not_lt.mp hlast))

/-- A call has raised its register to the larger of the two values. -/
theorem Inv.finish (h : Inv hash s t) (hw : t.calls n = some w) (hest : w.est = c.est)
    (hop : w.op = c.op) (hwork : Working hash t.reached w i value) (hregs : ∀ e j, regs e j =
      if e = c.est ∧ j = i then max (s.regs e j) value else s.regs e j) :
    Inv hash ({ s with regs := regs }.move n c (c.op.after i)) (t.bring n) := by
  have hbring : ∀ e j, (t.bring n).reached e j =
      if e = c.est ∧ j = i then t.reached e j ∪ w.keys else t.reached e j := by
    intro e j
    rw [reached_bring_of_some hw, hest, hwork.register_eq]
  have hsub := reached_bring t n
  refine h.move (w := w.pass) (fun e j => ?_) (fun e j k hk => ?_) hsub (fun m hm => if_neg hm) ?_
    hest hop ?_
  · rw [hregs, hbring]
    split
    · rw [sup_union, h.exact, hwork.value_eq]
    · exact h.exact e j
  · rw [hbring] at hk
    split at hk
    · rename_i hat
      obtain hk | hk := mem_union.mp hk
      · exact h.placed e j k hk
      · exact (hwork.placed k hk).trans hat.2.symm
    · exact h.placed e j k hk
  · exact (if_pos rfl).trans (by rw [hw]; rfl)
  · rw [← hop]
    refine ok_after (hwork.mono hsub) (hwork.here.trans ?_)
    rw [hbring, hest, if_pos ⟨rfl, rfl⟩]
    exact subset_union_right

theorem inv_start (h : Inv hash s t) {est : Nat} (hstep : step hash s (.start n est op) = some s') :
    Inv hash s' (t.next hash (.start n est op)) := by
  simp only [step] at hstep
  split at hstep
  · cases hstep
  all_goals
    rename_i hfree
    cases hstep
    rw [Trace.next, h.free n hfree]
    refine h.stay rfl (fun m hm => if_neg hm) (if_pos rfl) rfl rfl ?_
  · refine ⟨rfl, sup_singleton.symm, fun k hk => ?_, filter_subset _ _, fun j hj k hk => ?_, nofun⟩
    · rw [mem_singleton.mp hk]
    · obtain ⟨hkey, hreg⟩ := mem_filter.mp hk
      rw [mem_singleton.mp hkey] at hreg
      exact absurd hreg.symm hj
  · refine ⟨rfl, nofun, fun o ho j => ?_⟩
    cases ho
    exact Subset.refl _

theorem Inv.call (h : Inv hash s t) {next : Call → Option State}
    (hnext : (s.calls.get? n).bind next = some s') :
    ∃ c w, next c = some s' ∧ t.calls n = some w ∧ w.est = c.est ∧ w.op = c.op ∧
      c.pc.Ok hash t.reached w := by
  obtain ⟨c, hc, hnext⟩ := Option.bind_eq_some_iff.mp hnext
  obtain ⟨w, hw⟩ := h.calls n c hc
  exact ⟨c, w, hnext, hw⟩

theorem inv_step (h : Inv hash s t) (hstep : step hash s a = some s') :
    Inv hash s' (t.next hash a) := by
  cases a with
  | start n est op => exact inv_start h hstep
  | read n =>
    obtain ⟨c, w, hnext, hw, hest, hop, hok⟩ := h.call hstep
    split at hnext <;> cases hnext
    rename_i o i hmerge hpc
    rw [hpc] at hok
    obtain ⟨rfl, hpast, hsource⟩ := hok
    have hread : w.read t = { w with keys := t.reached o w.register } := by
      rw [Errand.read, hop, hmerge]
    refine h.stay rfl (fun m hm => if_neg hm) (w := w.read t)
      ((if_pos rfl).trans (by rw [hw]; rfl)) (hread ▸ hest) (hread ▸ hop) ?_
    rw [hread]
    refine ⟨rfl, h.exact o _, h.placed o _, hsource o (hop.trans hmerge) _, fun j hj => ?_, hsource⟩
    simp only [Errand.Past, hop, hmerge] at hj
    exact hpast j hj
  | load n =>
    obtain ⟨c, w, hnext, hw, hest, hop, hok⟩ := h.call hstep
    split at hnext <;> try cases hnext
    rename_i hpc
    rw [hpc] at hok
    dsimp only at hnext
    split at hnext <;> cases hnext
    exact h.stay rfl (fun _ _ => rfl) hw hest hop ⟨hok, ‹_›⟩
  | keep n =>
    obtain ⟨c, w, hnext, hw, hest, hop, hok⟩ := h.call hstep
    split at hnext <;> try cases hnext
    rename_i hpc
    rw [hpc] at hok
    split at hnext <;> cases hnext
    rename_i hle
    refine h.finish hw hest hop hok fun e j => (?_ : s.regs e j = _)
    split
    · rename_i hat
      rw [hat.1, hat.2, max_eq_left hle]
    · rfl
  | swap n =>
    obtain ⟨c, w, hnext, hw, hest, hop, hok⟩ := h.call hstep
    split at hnext <;> try cases hnext
    rename_i hpc
    rw [hpc] at hok
    split at hnext <;> cases hnext
    rename_i hcur
    refine h.finish hw hest hop hok.1 fun e j => ?_
    split
    · rename_i hat
      rw [hat.1, hat.2, hcur, max_eq_right hok.2.le]
    · rfl
  | retry n =>
    obtain ⟨c, w, hnext, hw, hest, hop, hok⟩ := h.call hstep
    split at hnext <;> try cases hnext
    rename_i hpc
    rw [hpc] at hok
    split at hnext <;> cases hnext
    exact h.stay rfl (fun _ _ => rfl) hw hest hop hok.1

variable {as : List Label}

theorem inv_run (hrun : run (step hash) initial as = some s) : Inv hash s (trace hash as) := by
  have hstart : Inv hash initial (trace hash []) := ⟨fun _ _ => rfl,
    fun _ _ _ hk => (by cases hk), fun _ _ hc => (by cases hc), fun _ _ => rfl⟩
  refine run_history (I := fun s past => Inv hash s (trace hash past))
    (fun s past a s' hs _ hstep => ?_) hstart (runMeets_true initial as) hrun
  rw [trace_concat]
  exact inv_step hs hstep

/-! ## Merges of key sets -/

variable {before after : List Label} {e : Nat}

theorem brought_of_returned (hrun : run (step hash) initial as = some s)
    (has : as = before ++ .start n e op :: after) (hdone : s.Returned n) (hi : i < registers) :
    op.keys hash before i ⊆ reached hash as e i := by
  obtain ⟨c, hc, hpc⟩ := hdone
  obtain ⟨w, hw, -, -, hok⟩ := (inv_run hrun).calls n c hc
  rw [hpc] at hok
  have hstarted : (trace hash (before ++ [.start n e op])).calls n =
      some (op.errand hash (trace hash before) e) := by
    rw [has, run_append, Option.bind_eq_some_iff] at hrun
    obtain ⟨s₀, hs₀, hrun⟩ := hrun
    obtain ⟨s₁, hstart, -⟩ := of_run_cons hrun
    have hfree : s₀.calls.get? n = none := by
      simp only [step] at hstart
      split at hstart <;> first | assumption | cases hstart
    rw [trace_concat, Trace.next, (inv_run hs₀).free n hfree]
    exact if_pos rfl
  obtain ⟨v, hv, hest, howed⟩ := errand_append hstarted after
  rw [List.append_assoc, List.singleton_append, ← has, hw] at hv
  cases hv
  have hkeys := hok i hi
  rw [hest, howed] at hkeys
  cases op <;> exact hkeys

/-- What has reached `e` when all its calls are merges of `a` and `b`. -/
structure MergeOf (a b e : Nat) (t : Trace) : Prop where
  calls : ∀ n w, t.calls n = some w → w.est = e →
    ∃ o, (o = a ∨ o = b) ∧ w.op = .merge o ∧ w.keys ⊆ t.reached o w.register
  reached : ∀ i, t.reached e i ⊆ t.reached a i ∪ t.reached b i

theorem Holds.regs_eq {keys : Finset String} (hrun : run (step hash) initial as = some s)
    (h : Holds hash as e keys) (i : Nat) : s.regs e i = estimatorOf hash keys i := by
  rw [estimatorOf, ← h i]
  exact (inv_run hrun).exact e i

theorem MergeOf.update {a b : Nat} (h : MergeOf a b e t)
    (hf : ∀ w, (f w).est = w.est ∧ (f w).op = w.op)
    (hkeys : ∀ w o, w.op = .merge o → w.keys ⊆ t.reached o w.register →
      (f w).keys ⊆ t.reached o (f w).register) : MergeOf a b e (t.update n f) := by
  refine ⟨fun m v hv hest => ?_, h.reached⟩
  dsimp only [Trace.update] at hv
  split at hv
  · obtain ⟨w, hw, rfl⟩ := Option.map_eq_some_iff.mp hv
    obtain ⟨o, ho, hop, hsub⟩ := h.calls m w hw ((hf w).1.symm.trans hest)
    exact ⟨o, ho, (hf w).2.trans hop, hkeys w o hop hsub⟩
  · exact h.calls m v hv hest

theorem MergeOf.bring {a b : Nat} (h : MergeOf a b e t) (n : Nat) : MergeOf a b e (t.bring n) := by
  have hsub := reached_bring t n
  have hpass : MergeOf a b e (t.update n Errand.pass) :=
    h.update (fun _ => ⟨rfl, rfl⟩) fun _ _ _ _ => empty_subset _
  refine ⟨fun m v hv hest => ?_, fun i => ?_⟩
  · obtain ⟨o, ho, hop, hkeys⟩ := hpass.calls m v hv hest
    exact ⟨o, ho, hop, hkeys.trans (hsub o _)⟩
  refine Subset.trans ?_ (union_subset_union (hsub a i) (hsub b i))
  cases hw : t.calls n with
  | none =>
    simp only [Trace.bring, hw]
    exact h.reached i
  | some w =>
    rw [reached_bring_of_some hw]
    split
    · rename_i hat
      obtain ⟨o, ho, -, hkeys⟩ := h.calls n w hw hat.1.symm
      rw [hat.2]
      refine union_subset (h.reached _) (hkeys.trans ?_)
      obtain rfl | rfl := ho
      · exact subset_union_left
      · exact subset_union_right
    · exact h.reached i

theorem mergeOf_trace {a b : Nat} (h : ∀ n op, .start n e op ∈ as → op = .merge a ∨ op = .merge b) :
    MergeOf a b e (trace hash as) := by
  induction as using List.reverseRecOn with
  | nil => exact ⟨nofun, fun i => empty_subset _⟩
  | append_singleton as l ih =>
    have hs := ih fun n op hop => h n op (List.mem_append_left _ hop)
    rw [trace_concat]
    generalize trace hash as = t at hs
    cases l with
    | start n est op =>
      rw [Trace.next]
      split
      · exact hs
      refine ⟨fun m v hv hest => ?_, hs.reached⟩
      dsimp only at hv
      split at hv
      · cases hv
        have hest : est = e := by cases op <;> exact hest
        obtain rfl | rfl := h n op (by simp [hest])
        · exact ⟨a, .inl rfl, rfl, empty_subset _⟩
        · exact ⟨b, .inr rfl, rfl, empty_subset _⟩
      · exact hs.calls m v hv hest
    | read n =>
      refine hs.update (fun w => ?_) fun w o hop _ => ?_
      · rw [Errand.read]
        split <;> exact ⟨rfl, rfl⟩
      · rw [Errand.read, hop]
    | keep n | swap n => exact hs.bring n
    | load n | retry n => exact hs

end

/-- In every interleaving a register is the largest rank of the keys that have reached it, and at
most 51.  A call that has returned has brought its key, or all that was in the other estimator
when it started; so merging two estimators into a third, in any order and any number of times,
gives the estimator of the union. -/
theorem registers_exact {hash : String → UInt64} {as : List Label} {s : State}
    (hrun : run (step hash) initial as = some s) :
    (∀ e i, s.regs e i = (reached hash as e i).sup (rank hash) ∧ s.regs e i ≤ 51 ∧
      ∀ k ∈ reached hash as e i, register hash k = i) ∧
    (∀ before after n e op, as = before ++ .start n e op :: after → s.Returned n →
      ∀ i < registers, op.keys hash before i ⊆ reached hash as e i) ∧
    ∀ before after a b e A B, as = before ++ after →
      Holds hash before a A ∧ Holds hash as a A → Holds hash before b B ∧ Holds hash as b B →
      (∀ n op, .start n e op ∈ as → op = .merge a ∨ op = .merge b) →
      (∃ n, .start n e (.merge a) ∈ after ∧ s.Returned n) →
      (∃ n, .start n e (.merge b) ∈ after ∧ s.Returned n) →
      ∀ i, s.regs e i = estimatorOf hash (A ∪ B) i := by
  have hinv := inv_run hrun
  refine ⟨fun e i => ⟨hinv.exact e i, ?_, hinv.placed e i⟩,
    fun before after n e op has hdone i hi => brought_of_returned hrun has hdone hi,
    fun before after a b e A B has hA hB honly ha hb i => ?_⟩
  · rw [hinv.exact]
    exact Finset.sup_le fun k _ => rank_le k
  have hbrought : ∀ (o : Nat) (K : Finset String), Holds hash before o K →
      (∃ n, .start n e (.merge o) ∈ after ∧ s.Returned n) →
      ∀ j, keysAt hash K j ⊆ reached hash as e j := by
    rintro o K hK ⟨n, hn, hdone⟩ j
    obtain ⟨x, y, rfl⟩ := List.append_of_mem hn
    by_cases hj : j < registers
    · have hkeys := brought_of_returned hrun (has.trans (List.append_assoc ..).symm) hdone hj
      rw [← hK j]
      exact (reached_append before x o j).trans hkeys
    · intro k hk
      obtain ⟨-, rfl⟩ := Finset.mem_filter.mp hk
      exact absurd (register_lt k) hj
  refine Holds.regs_eq hrun (fun j => ?_) i
  have hunion : keysAt hash (A ∪ B) j = keysAt hash A j ∪ keysAt hash B j := filter_union ..
  rw [hunion]
  refine Subset.antisymm ?_ (union_subset (hbrought a A hA.1 ha j) (hbrought b B hB.1 hb j))
  rw [← hA.2 j, ← hB.2 j]
  exact (mergeOf_trace honly).reached j

/-- A `Merge` that is at register `i`, with nothing larger to bring from there on. -/
theorem merge_keeps {hash : String → UInt64} {s : State} {n e o i : Nat} (hi : i < registers)
    (hc : s.calls.get? n = some ⟨e, .merge o, .read i⟩)
    (hle : ∀ j, i ≤ j → s.regs o j ≤ s.regs e j) :
    ∃ bs s', run (step hash) s bs = some s' ∧ s'.regs = s.regs ∧ s'.Returned n := by
  induction hk : registers - i generalizing i s with
  | zero => omega
  | succ k ih =>
    let c : Call := ⟨e, .merge o, .read i⟩
    let s₁ := s.move n c (.load i (s.regs o i))
    let s₂ := s₁.move n ⟨e, .merge o, .load i (s.regs o i)⟩ ((Op.merge o).after i)
    have hread : step hash s (.read n) = some s₁ := by simp [step, hc, s₁, c]
    have hkeep : step hash s₁ (.keep n) = some s₂ := by
      simp [step, s₁, s₂, State.move, Table.get?_set_self, hle i le_rfl, c]
    by_cases hlast : i + 1 < registers
    · obtain ⟨bs, s', hrun, hregs, hdone⟩ := ih (s := s₂) hlast
        (by simp [s₂, State.move, Table.get?_set_self, Op.after, hlast])
        (fun j hj => hle j (by omega)) (by omega)
      refine ⟨.read n :: .keep n :: bs, s', ?_, hregs, hdone⟩
      rw [run_cons, hread, Option.bind_some, run_cons, hkeep, Option.bind_some, hrun]
    · refine ⟨[.read n, .keep n], s₂, ?_, rfl, _, Table.get?_set_self _ _ _, ?_⟩
      · rw [run_cons, hread, Option.bind_some, run_cons, hkeep]
        rfl
      · simp [Op.after, hlast]

/-- A key is added to one estimator, which is then merged into another. -/
theorem registers_exact_merged :
    ∃ as s, run (step fun _ => 1) initial as = some s ∧ s.Returned 1 ∧
      "a" ∈ reached (fun _ => 1) as 1 0 ∧ 50 ≤ s.regs 1 0 := by
  obtain ⟨s₀, hrun₀, hc, hregs₀⟩ : ∃ s₀ ∈ run (step fun _ => 1) initial
      [.start 0 0 (.add "a"), .load 0, .swap 0, .start 1 1 (.merge 0), .read 1, .load 1, .swap 1],
      s₀.calls.get? 1 = some ⟨1, .merge 0, .read 1⟩ ∧ ∀ j, 1 ≤ j → s₀.regs 0 j ≤ s₀.regs 1 j := by
    have hregister : register (fun _ => 1) "a" = 0 := by decide
    refine ⟨_, rfl, rfl, fun j hj => ?_⟩
    have hne : j ≠ 0 := by omega
    simp [State.move, State.raise, hregister, hne, initial]
  obtain ⟨bs, s, hrun, hregs, hdone⟩ := merge_keeps (by decide) hc hregs₀
  have hall := hrun
  rw [← Option.bind_some (f := fun t => run _ t bs), ← hrun₀, ← run_append] at hall
  have hexact := registers_exact hall
  have hmem : "a" ∈ reached (fun _ => 1) _ 1 0 :=
    hexact.2.1 [.start 0 0 (.add "a"), .load 0, .swap 0] _ 1 1 (.merge 0) rfl hdone 0
      (by decide) (by decide)
  refine ⟨_, s, hall, hdone, hmem, ?_⟩
  rw [(hexact.1 1 0).1]
  exact le_trans (by decide) (Finset.le_sup hmem)

end GoServices.Playback.Estimator
