import Sonic.AllowListFrame

/-! # Names of policies

The names that `__generate_names` makes of a key, and the constants of the manager's own tests. -/

namespace Sonic.AllowList
open List Option

open Str

theorem community_eq (p : Policy) : (generateNames p).community =
    if p.communityValue = emptyCommunity then emptyCommunity
    else "COMMUNITY_ALLOW_LIST_" ++ p.scope ++ "_COMMUNITY_" ++ p.communityValue := rfl

theorem words_generateNames {p : Policy} (hc : IsWord p.communityValue) (hn : IsWord p.neighborType) :
    (generateNames p).Words := by
  have hs : IsWord p.scope := by
    refine (IsWord.append (by decide) (isWord_ofInt _)).append ?_
    split
    · simp_all
    · exact IsWord.append (by decide) hn
  have hp {s : Str} (h : IsWord s) : IsWord ("PL_ALLOW_LIST_" ++ p.scope ++ "_COMMUNITY_" ++
      p.communityValue ++ s) := ((((show IsWord _ by decide).append hs).append (by decide)).append hc).append h
  have hr {s : Str} (h : IsWord s) : IsWord ("ALLOW_LIST_" ++ p.scope ++ s) :=
    ((show IsWord _ by decide).append hs).append h
  refine ⟨?_, ?_, ?_⟩
  · rintro (_ | _)
    · exact hp (by decide)
    · exact hp (by decide)
  · rintro (_ | _)
    · exact hr (by decide)
    · exact hr (by decide)
  · rw [community_eq]
    split
    · decide
    · exact (((show IsWord _ by decide).append hs).append (by decide)).append hc

theorem isWord_splitCommunity {s : Str} (h : IsWord s) :
    IsWord (splitCommunity s).1 ∧ IsWord (splitCommunity s).2 := by
  unfold splitCommunity
  cases hs : splitOnce ['|'] s with
  | none => exact ⟨h, show IsWord emptyCommunity by decide⟩
  | some p =>
    exact ⟨h.of_subset fun c => (mem_of_mem_splitOnce hs).1, h.of_subset fun c => (mem_of_mem_splitOnce hs).2⟩

theorem mem_of_mem_removeFrom {sub : Str} {c : Char} : ∀ {k : Nat} {s : Str}, c ∈ removeFrom sub k s → c ∈ s
  | _, [], h => by simp [removeFrom] at h
  | k + 1, d :: s, h => mem_cons_of_mem _ (mem_of_mem_removeFrom (k := k) h)
  | 0, d :: s, h => by
    simp only [removeFrom] at h
    split at h
    · exact mem_cons_of_mem _ (mem_of_mem_removeFrom h)
    · rcases List.mem_cons.mp h with rfl | h
      · exact mem_cons_self
      · exact mem_cons_of_mem _ (mem_of_mem_removeFrom h)

theorem isWord_parseKey {key : Str} {p : Policy} (hk : IsWord key) (h : parseKey key = some p) :
    IsWord p.communityValue ∧ IsWord p.neighborType := by
  unfold parseKey at h
  split at h
  · simp only [bind_eq_bind, bind_eq_some_iff, Option.pure_def, Option.some.injEq] at h
    obtain ⟨⟨key', neighbor⟩, hs, n, -, rfl⟩ := h
    have hn : IsWord neighbor := hk.of_subset fun c => (mem_of_mem_splitOnce hs).2
    grind [isWord_splitCommunity]
  · simp only [bind_eq_bind, bind_eq_some_iff, Option.pure_def, Option.some.injEq] at h
    obtain ⟨n, -, rfl⟩ := h
    exact ⟨(isWord_splitCommunity (hk.of_subset fun c => mem_of_mem_removeFrom)).2,
      fun _ hc => absurd hc not_mem_nil⟩

def anyAddress : Addresses := ⟨fun _ => true, fun _ => true, some⟩

def defaultConstants : Constants where
  enabled := true
  prefixMatchTag := none
  constantsV4 := ["deny 0.0.0.0/0 le 17"]
  constantsV6 := ["deny 0::/0 le 59", "deny 0::/0 ge 65"]
  dropCommunity := "123:123"
  defaultAction := some "permit"

def Frr.empty : Frr := ⟨[], by simp, [], [], []⟩

def Frr.seqNumbers (f : Frr) (rm : Str) : List Nat := ((f.routeMaps.get? rm).getD []).map Prod.fst

end Sonic.AllowList
