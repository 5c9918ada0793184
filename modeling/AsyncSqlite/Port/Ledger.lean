import AsyncSqlite.Thread.Accounting

/-!
# AsyncSqlite.Port.Ledger — the accounts of a port

What every `Thread` port keeps in balance: accepted messages are those whose
`DispatchDelegate` returned true; each of them has left the queues or is
queued; and what the worker popped it has invoked or holds in its hand.
-/

namespace AsyncSqlite

structure Ledger (dispatch : ℕ → DispatchPc)
    (accepted removed queued popped invoked hand : List DelegateMsg) : Prop where
  perm : accepted.Perm (removed ++ queued)
  returned : ∀ m ∈ accepted, dispatch m.id = .returned m true
  nodup : (accepted.map (·.id)).Nodup
  sublist : popped.Sublist removed
  popped : popped.filter (·.invoker) = invoked ++ hand

namespace Ledger

variable {dispatch : ℕ → DispatchPc}
  {accepted removed queued popped invoked hand queued' : List DelegateMsg} {m : DelegateMsg}

theorem nil (dispatch : ℕ → DispatchPc) : Ledger dispatch [] [] [] [] [] [] :=
  ⟨.refl _, by simp, List.nodup_nil, .refl _, rfl⟩

variable (h : Ledger dispatch accepted removed queued popped invoked hand)

include h

/-- The id of a call that has not returned is not among the accepted ones. -/
theorem fresh {pc : DispatchPc} (hm : dispatch m.id = pc) (hpc : ∀ x, pc ≠ .returned x true) :
    ∀ x ∈ accepted, x.id ≠ m.id := by
  intro x hx heq
  have hret := h.returned x hx
  rw [heq, hm] at hret
  exact hpc x hret

/-- A call that moves on without a push. -/
theorem move (hfresh : ∀ x ∈ accepted, x.id ≠ m.id) (pc : DispatchPc) :
    Ledger (Function.update dispatch m.id pc) accepted removed queued popped invoked hand := by
  refine ⟨h.perm, fun x hx => ?_, h.nodup, h.sublist, h.popped⟩
  rw [Function.update_of_ne (hfresh x hx)]
  exact h.returned x hx

/-- A push anywhere in the queues. -/
theorem accept (hfresh : ∀ x ∈ accepted, x.id ≠ m.id) (hq : queued'.Perm (queued ++ [m])) :
    Ledger (Function.update dispatch m.id (.returned m true)) (accepted ++ [m]) removed queued'
      popped invoked hand := by
  have hmoved := h.move hfresh (.returned m true)
  refine ⟨?_, ?_, ?_, h.sublist, h.popped⟩
  · have hperm := h.perm.append_right [m]
    rw [List.append_assoc] at hperm
    exact hperm.trans (hq.symm.append_left removed)
  · intro x hx
    rcases List.mem_append.mp hx with hx | hx
    · exact hmoved.returned x hx
    · rw [List.mem_singleton.mp hx]
      exact Function.update_self ..
  · rw [List.map_append, List.nodup_append]
    refine ⟨h.nodup, List.nodup_singleton _, ?_⟩
    intro a ha b hb
    rcases List.mem_map.mp ha with ⟨x, hx, rfl⟩
    rw [List.mem_singleton.mp hb]
    exact hfresh x hx

/-- The worker takes a queue entry into its empty hand. -/
theorem pop {x : ThreadMsg} (hx : x = .exit ∨ ∃ d, x = .delegate d) (hhand : hand = [])
    (hq : queued = x.data.toList ++ queued') :
    Ledger dispatch accepted (removed ++ x.data.toList) queued' (popped ++ x.data.toList) invoked
      x.target.toList := by
  have hfilter : x.data.toList.filter (·.invoker) = x.target.toList := by
    refine ThreadState.data_filter ?_
    rcases hx with hx | ⟨d, hx⟩
    · exact Or.inr hx
    · exact Or.inl ⟨d.priority, d, hx, rfl⟩
  refine ⟨?_, h.returned, h.nodup, h.sublist.append (.refl _), ?_⟩
  · rw [List.append_assoc, ← hq]
    exact h.perm
  · rw [List.filter_append, h.popped, hhand, List.append_nil, hfilter]

/-- Everything that is queued is thrown away. -/
theorem discard : Ledger dispatch accepted (removed ++ queued) [] popped invoked hand := by
  refine ⟨?_, h.returned, h.nodup, h.sublist.trans (List.sublist_append_left _ _), h.popped⟩
  rw [List.append_nil]
  exact h.perm

/-- The worker invokes what it holds. -/
theorem invoke (hhand : hand = [m]) :
    Ledger dispatch accepted removed queued popped (invoked ++ [m]) [] := by
  refine ⟨h.perm, h.returned, h.nodup, h.sublist, ?_⟩
  rw [List.append_nil, ← hhand]
  exact h.popped

theorem invoked_sublist : invoked.Sublist popped := by
  have hpre : invoked.Sublist (popped.filter (·.invoker)) := by
    rw [h.popped]
    exact List.sublist_append_left _ _
  exact hpre.trans List.filter_sublist

/-- No message is invoked twice. -/
theorem invoked_nodup : invoked.Nodup := by
  have hn : (removed ++ queued).Nodup := h.perm.nodup_iff.mp (h.nodup.of_map _)
  have hsub := (h.invoked_sublist.trans h.sublist).trans (List.sublist_append_left removed queued)
  exact hsub.nodup hn

/-- With nothing queued, in hand or thrown away, everything accepted has been
invoked once. -/
theorem count_invoked (hqueued : queued = []) (hhand : hand = []) (hall : removed = popped)
    (hm : m ∈ accepted) (hinv : m.invoker = true) : invoked.count m = 1 := by
  have hmem : m ∈ invoked := by
    have hpop := h.popped
    rw [hhand, List.append_nil] at hpop
    rw [← hpop]
    refine List.mem_filter.mpr ⟨?_, hinv⟩
    have hrem := h.perm.subset hm
    rw [hqueued, List.append_nil, hall] at hrem
    exact hrem
  exact List.count_eq_one_of_mem h.invoked_nodup hmem

end Ledger

end AsyncSqlite
