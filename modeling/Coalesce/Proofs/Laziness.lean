import Mathlib.Data.List.OfFn
import Mathlib.Data.Nat.Find
import Coalesce.Proofs.Emission
import Coalesce.Pull

namespace Coalesce

/-- A source gives the tokens `ts` before it first has nothing to give. -/
structure Source.Gives (src : Source) (ts : List Token) : Prop where
  token : ∀ i (h : i < ts.length), src.answer i = some ts[i]
  nothing : src.answer ts.length = none

theorem Source.exists_gives (src : Source) : ∃ ts, src.Gives ts := by
  have hex : ∃ i, src.answer i = none := ⟨src.last, src.answer_last⟩
  have hsome (i : Fin (Nat.find hex)) : (src.answer i).isSome :=
    Option.isSome_iff_ne_none.2 (Nat.find_min hex i.2)
  refine ⟨List.ofFn fun i => (src.answer i).get (hsome i), ?_, ?_⟩
  · intro i h
    simp
  · rw [List.length_ofFn]
    exact Nat.find_spec hex

theorem Source.gives_ofList (ts : List Token) : (Source.ofList (ts.map some)).Gives ts where
  token i h := by simp [ofList, h]
  nothing := by simp [ofList]

/-- How often a source that gives `ts` is asked for `n` compressed tokens: until as many are final,
or until it has nothing more to give. -/
def needed (ts : List Token) (n : Nat) : Nat :=
  if h : ∃ k ≤ ts.length, n ≤ (final (ts.take k)).length then Nat.find h else ts.length + 1

namespace Pull

variable {src : Source} {ts : List Token} {n : Nat} {p : Pull src}

def after (src : Source) : Nat → Pull src
  | 0 => start src
  | n + 1 => (after src n).next.2

/-- As much of `ts` has been pushed as the source was asked for, `n` of the tokens that are final
have been given, and no less than this would have done for `m` of them. -/
structure Running (ts : List Token) (n m : Nat) (p : Pull src) : Prop where
  exhausted : p.exhausted = false
  asked : p.asked ≤ ts.length
  merger : p.merger = .after (ts.take p.asked)
  ready : p.ready.toList = (final (ts.take p.asked)).drop n
  given : n ≤ (final (ts.take p.asked)).length
  least : ∀ k < p.asked, (final (ts.take k)).length < m

/-- The source had nothing more to give, and all that was left has been given. -/
structure Finished (ts : List Token) (n : Nat) (p : Pull src) : Prop where
  exhausted : p.exhausted = true
  asked : p.asked = ts.length + 1
  ready : p.ready.toList = []
  given : (compress ts).length ≤ n
  least : (final ts).length < n

inductive At (ts : List Token) (n : Nat) (p : Pull src) : Prop where
  | running (h : p.Running ts n n)
  | finished (h : p.Finished ts n)

theorem Running.weaken {m m' : Nat} (h : p.Running ts n m) (hm : m ≤ m') : p.Running ts n m' :=
  { h with least := fun k hk => Nat.lt_of_lt_of_le (h.least k hk) hm }

theorem Running.length_eq {m : Nat} (h : p.Running ts n m) (hr : p.ready.next? = none) :
    (final (ts.take p.asked)).length = n := by
  have hd := h.ready
  rw [(Emitted.next?_eq_none_iff _).1 hr] at hd
  exact Nat.le_antisymm (List.drop_eq_nil_iff.1 hd.symm) h.given

theorem Running.push {m : Nat} {q : Pull src} (h : p.Running ts n m) (hr : p.ready.next? = none)
    (hm : n < m) (hlt : p.asked < ts.length) (hx : q.exhausted = false)
    (ha : q.asked = p.asked + 1) (hq : q.merger = (p.merger.push ts[p.asked]).2)
    (he : q.ready = (p.merger.push ts[p.asked]).1) : q.Running ts n m := by
  have hn := h.length_eq hr
  have ht : ts.take (p.asked + 1) = ts.take p.asked ++ [ts[p.asked]] :=
    List.take_succ_eq_append_getElem hlt
  refine ⟨hx, by omega, ?_, ?_, ?_, ?_⟩
  · rw [hq, ha, ht, Merger.after_concat, h.merger]
  · rw [he, ha, ht, final_concat, h.merger, List.drop_left' hn]
  · rw [ha, ht, final_concat, List.length_append]
    omega
  · intro k hk
    rw [ha] at hk
    rcases Nat.lt_succ_iff_lt_or_eq.1 hk with hk | rfl
    · exact h.least k hk
    · omega

theorem getElem?_compress {k : Nat} (hn : n < (final (ts.take k)).length) :
    (compress ts)[n]? = (final (ts.take k))[n]? := by
  have hp := final_prefix_compress_append (ts.take k) (ts.drop k)
  rw [List.take_append_drop] at hp
  obtain ⟨us, hu⟩ := hp
  rw [← hu, List.getElem?_append_left hn]

theorem Running.pull (hs : src.Gives ts) (h : p.Running ts n (n + 1)) :
    p.next.1 = (compress ts)[n]? ∧ p.next.2.At ts (n + 1) := by
  fun_induction Pull.next p with
  | case1 p t rest hr =>
    have hd := h.ready
    rw [Emitted.toList_of_next? hr] at hd
    have hn : n < (final (ts.take p.asked)).length := by
      refine Nat.lt_of_not_le fun hle => ?_
      rw [List.drop_eq_nil_of_le hle] at hd
      contradiction
    rw [List.drop_eq_getElem_cons hn] at hd
    obtain ⟨ht, hrest⟩ := List.cons.inj hd
    refine ⟨?_, .running ⟨h.exhausted, h.asked, h.merger, hrest, hn, h.least⟩⟩
    rw [getElem?_compress hn, List.getElem?_eq_getElem hn, ht]
  | case2 p hr hx =>
    rw [h.exhausted] at hx
    contradiction
  | case3 p hr hx ht =>
    have hk : p.asked = ts.length := by
      refine Nat.le_antisymm h.asked (Nat.le_of_not_lt fun hlt => ?_)
      rw [hs.token _ hlt] at ht
      contradiction
    have hn := h.length_eq hr
    have hm := h.merger
    rw [hk, List.take_length] at hn hm
    have hc : compress ts = final ts ++ p.merger.finish.1.toList := by
      rw [compress_eq_final, Merger.held, hm]
    have hl := p.merger.length_held
    refine ⟨?_, .finished ⟨rfl, congrArg (· + 1) hk, ?_, ?_, ?_⟩⟩
    · rw [hc, List.getElem?_append_right (by omega), hn, Nat.sub_self]
      cases p.merger.finish.1 <;> rfl
    · exact (Emitted.next?_eq_none_iff _).1 hr
    · rw [hc, List.length_append, hn]
      cases p.merger.finish.1 <;> simp
    · omega
  | case4 p hr hx t ht hlt ih =>
    have hk : p.asked < ts.length := by
      refine Nat.lt_of_le_of_ne h.asked fun he => ?_
      rw [he, hs.nothing] at ht
      contradiction
    obtain rfl : ts[p.asked] = t := Option.some.inj ((hs.token _ hk).symm.trans ht)
    exact ih (h.push hr n.lt_succ_self hk rfl rfl rfl rfl)

theorem Finished.pull (h : p.Finished ts n) :
    p.next = (none, p) ∧ (compress ts)[n]? = none ∧ p.Finished ts (n + 1) := by
  refine ⟨?_, List.getElem?_eq_none h.given, ?_⟩
  · have hr := (Emitted.next?_eq_none_iff _).2 h.ready
    fun_cases Pull.next p with
    | case1 t rest hs =>
      rw [hr] at hs
      contradiction
    | case2 => rfl
    | case3 _ hx =>
      rw [h.exhausted] at hx
      contradiction
    | case4 _ hx =>
      rw [h.exhausted] at hx
      contradiction
  · exact { h with given := Nat.le_succ_of_le h.given, least := Nat.lt_succ_of_lt h.least }

theorem At.pull (hs : src.Gives ts) (h : p.At ts n) :
    p.next.1 = (compress ts)[n]? ∧ p.next.2.At ts (n + 1) := by
  cases h with
  | running h => exact (h.weaken n.le_succ).pull hs
  | finished h =>
    obtain ⟨hp, hc, hf⟩ := h.pull
    rw [hp, hc]
    exact ⟨rfl, .finished hf⟩

theorem at_after (hs : src.Gives ts) (n : Nat) : (after src n).At ts n := by
  induction n with
  | zero =>
    exact .running ⟨rfl, Nat.zero_le _, rfl, rfl, Nat.zero_le _, fun k hk => absurd hk k.not_lt_zero⟩
  | succ n ih => exact (ih.pull hs).2

theorem At.asked (h : p.At ts n) : p.asked = needed ts n := by
  unfold needed
  cases h with
  | running h =>
    rw [dif_pos ⟨p.asked, h.asked, h.given⟩]
    refine ((Nat.find_eq_iff _).2 ⟨⟨h.asked, h.given⟩, ?_⟩).symm
    rintro k hk ⟨-, hn⟩
    exact absurd (h.least k hk) (Nat.not_lt_of_le hn)
  | finished h =>
    rw [dif_neg, h.asked]
    rintro ⟨k, -, hn⟩
    have hp := final_prefix_append (ts.take k) (ts.drop k)
    rw [List.take_append_drop] at hp
    have hle := hp.length_le
    have hlt := h.least
    omega

theorem At.toList (hs : src.Gives ts) (h : p.At ts n) : p.toList = (compress ts).drop n := by
  fun_induction Pull.toList p generalizing n with
  | case1 p q hp =>
    have hn := (h.pull hs).1
    rw [hp] at hn
    exact (List.drop_eq_nil_of_le (List.getElem?_eq_none_iff.1 hn.symm)).symm
  | case2 p t q hp ih =>
    obtain ⟨hn, ha⟩ := h.pull hs
    rw [hp] at hn ha
    obtain ⟨hlt, ht⟩ := List.getElem?_eq_some_iff.1 hn.symm
    rw [ih ha, List.drop_eq_getElem_cons hlt, ht]

theorem toList_start (hs : src.Gives ts) : (start src).toList = compress ts :=
  (at_after hs 0).toList hs

/-- Every pull gives the next token that compression at once would give, the source is asked for no
more than that takes, and not again once it had nothing to give. -/
theorem laziness (src : Source) :
    ∃ ts, src.Gives ts ∧
      (∀ n, (after src n).next.1 = (compress ts)[n]?) ∧
      (∀ n, (after src n).asked = needed ts n) ∧
      (∀ n, (after src n).asked ≤ ts.length + 1) ∧
      (start src).toList = compress ts ∧
      (start (.ofList (ts.map some))).toList = compress ts := by
  obtain ⟨ts, hs⟩ := src.exists_gives
  refine ⟨ts, hs, fun n => ((at_after hs n).pull hs).1, fun n => (at_after hs n).asked, ?_,
    toList_start hs, toList_start (Source.gives_ofList ts)⟩
  intro n
  rcases at_after hs n with h | h
  · exact Nat.le_succ_of_le h.asked
  · exact Nat.le_of_eq h.asked

end Pull

end Coalesce
