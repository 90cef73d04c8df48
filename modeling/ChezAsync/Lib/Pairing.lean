import Mathlib.Data.List.Zip
import Mathlib.Tactic.Common

/-!
# Offers and requests matched in order

Two streams of arrivals, `offers` and `requests`: the k-th offer goes to the k-th request, as soon
as both have arrived.  What has been matched, the offers that wait and the requests that wait are
functions of the two histories, so a component that matches in this way is specified by them.
-/

universe u v

namespace Pairing

variable {α : Type u} {β : Type v}

def pairs (offers : List α) (requests : List β) : List (α × β) := offers.zip requests

/-- The offers that nobody has requested yet. -/
def backlog (offers : List α) (requests : List β) : List α := offers.drop requests.length

/-- The requests that wait for an offer. -/
def parked (offers : List α) (requests : List β) : List β := requests.drop offers.length

variable {offers : List α} {requests : List β} {a : α} {b : β}

/-! ## 1. The two histories, recovered -/

theorem backlog_eq_nil : backlog offers requests = [] ↔ offers.length ≤ requests.length :=
  List.drop_eq_nil_iff

theorem parked_eq_nil : parked offers requests = [] ↔ requests.length ≤ offers.length :=
  List.drop_eq_nil_iff

theorem backlog_or_parked (offers : List α) (requests : List β) :
    backlog offers requests = [] ∨ parked offers requests = [] := by
  rw [backlog_eq_nil, parked_eq_nil]
  exact Nat.le_total _ _

theorem offers_eq (offers : List α) (requests : List β) :
    offers = (pairs offers requests).map Prod.fst ++ backlog offers requests := by
  induction offers generalizing requests with
  | nil => simp [pairs, backlog]
  | cons a offers ih =>
    cases requests with
    | nil => simp [pairs, backlog]
    | cons b requests => exact congrArg (a :: ·) (ih requests)

theorem requests_eq (offers : List α) (requests : List β) :
    requests = (pairs offers requests).map Prod.snd ++ parked offers requests := by
  induction requests generalizing offers with
  | nil => simp [pairs, parked]
  | cons b requests ih =>
    cases offers with
    | nil => simp [pairs, parked]
    | cons a offers => exact congrArg (b :: ·) (ih offers)

theorem backlog_offer_parked {bs : List β} (h : parked offers requests = b :: bs) (a : α) :
    backlog (offers ++ [a]) requests = [] := by
  have hlt : ¬ requests.length ≤ offers.length := by
    rw [← parked_eq_nil, h]
    simp
  rw [backlog_eq_nil, List.length_append, List.length_singleton]
  omega

theorem pairs_offer_parked {bs : List β} (h : parked offers requests = b :: bs) (a : α) :
    pairs (offers ++ [a]) requests = pairs offers requests ++ [(a, b)] := by
  induction offers generalizing requests with
  | nil =>
    cases requests with
    | nil => cases h
    | cons c requests =>
      cases h
      rfl
  | cons o offers ih =>
    cases requests with
    | nil => cases h
    | cons c requests => exact congrArg ((o, c) :: ·) (ih h)

theorem parked_offer_parked {bs : List β} (h : parked offers requests = b :: bs) (a : α) :
    parked (offers ++ [a]) requests = bs := by
  have htail : parked (offers ++ [a]) requests = (parked offers requests).tail := by
    simp [parked, List.tail_drop]
  rw [htail, h, List.tail_cons]

theorem backlog_offer (h : parked offers requests = []) (a : α) :
    backlog (offers ++ [a]) requests = backlog offers requests ++ [a] := by
  rw [parked_eq_nil] at h
  exact List.drop_append_of_le_length h

theorem pairs_offer (h : parked offers requests = []) (a : α) :
    pairs (offers ++ [a]) requests = pairs offers requests := by
  rw [parked_eq_nil] at h
  induction offers generalizing requests with
  | nil =>
    rw [List.eq_nil_of_length_eq_zero (Nat.le_zero.mp h)]
    rfl
  | cons o offers ih =>
    cases requests with
    | nil => rfl
    | cons c requests => exact congrArg ((o, c) :: ·) (ih (Nat.le_of_succ_le_succ h))

theorem parked_offer (h : parked offers requests = []) (a : α) :
    parked (offers ++ [a]) requests = [] := by
  rw [parked_eq_nil] at h ⊢
  rw [List.length_append]
  omega

/-! ## 3. A new request: the same with the sides exchanged -/

theorem pairs_swap (offers : List α) (requests : List β) :
    pairs offers requests = (pairs requests offers).map Prod.swap :=
  (List.zip_swap requests offers).symm

theorem parked_request_backlog {os : List α} (h : backlog offers requests = a :: os) (b : β) :
    parked offers (requests ++ [b]) = [] :=
  backlog_offer_parked (show parked requests offers = a :: os from h) b

theorem pairs_request_backlog {os : List α} (h : backlog offers requests = a :: os) (b : β) :
    pairs offers (requests ++ [b]) = pairs offers requests ++ [(a, b)] := by
  rw [pairs_swap, pairs_offer_parked (show parked requests offers = a :: os from h) b,
    List.map_append, ← pairs_swap]
  rfl

theorem backlog_request_backlog {os : List α} (h : backlog offers requests = a :: os) (b : β) :
    backlog offers (requests ++ [b]) = os :=
  parked_offer_parked (show parked requests offers = a :: os from h) b

theorem parked_request (h : backlog offers requests = []) (b : β) :
    parked offers (requests ++ [b]) = parked offers requests ++ [b] :=
  backlog_offer (show parked requests offers = [] from h) b

theorem pairs_request (h : backlog offers requests = []) (b : β) :
    pairs offers (requests ++ [b]) = pairs offers requests := by
  rw [pairs_swap, pairs_offer (show parked requests offers = [] from h) b, ← pairs_swap]

theorem backlog_request (h : backlog offers requests = []) (b : β) :
    backlog offers (requests ++ [b]) = [] :=
  parked_offer (show parked requests offers = [] from h) b

end Pairing
