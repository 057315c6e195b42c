import Mathlib.Tactic
import QuorumVault.Proofs.Vault.Peer

/-!
# Networks of vaults

A `Network` is any number of vaults, each with its own clock and source of random bytes.  Requests
and answers travel as messages: whoever has one may present it anywhere, at any time and any number
of times, or never.  `Network.Reaches` says which networks come about; whatever is known of their
vaults and answers is right (`Network.Reaches.good`).
-/

namespace QuorumVault

variable {ν ι : Type} {β : ι → Type}

/-- Vaults, and the answers by which master keys were handed over. -/
structure Network (ν : Type) {ι : Type} (β : ι → Type) where
  peer : ν → Peer ν β
  handovers : List (Handover ν β)

namespace Network

variable [DecidableEq ν] {m n start : Network ν β}

/-- No vault has been asked for anything. -/
def IsFresh (n : Network ν β) : Prop :=
  (∀ e, (∃ settings policy identity,
      Vault.ofSettings? settings policy identity = .ok (n.peer e).world.vault) ∧
    (n.peer e).waiting = none ∧ (n.peer e).origin = none) ∧ n.handovers = []

def set (e : ν) (p : Peer ν β) (n : Network ν β) : Network ν β :=
  { n with peer := Function.update n.peer e p }

/-- Where the issuer and the clock of a vault are. -/
def home (e : ν) : Issuer.Home (Network ν β) β where
  issuer n := (n.peer e).world.vault.issuer
  place issuer n := n.set e { n.peer e with world := World.home.place issuer (n.peer e).world }
  clock n := (n.peer e).world.clock

/-- A vault is asked for an operation; if it hands its master key over, then this is recorded. -/
def operate (e : ν) (o : Operation) (n : Network ν β) : Network ν β where
  peer := Function.update n.peer e ((n.peer e).run e o).2
  handovers := ((n.peer e).handover? o ((n.peer e).run e o).1).toList ++ n.handovers

/-- The networks that may come about: time passes, vaults are asked for operations, an answer
arrives where its request is outstanding, and tokens are looked up and their values remembered. -/
inductive Reaches [DecidableEq ι] (m : Network ν β) : Network ν β → Prop where
  | refl : Reaches m m
  | elsewhere {n : Network ν β} (e : ν) (clock : Clock) (rng : Entropy) (h : Reaches m n) :
      Reaches m (n.set e { n.peer e with
        world := { (n.peer e).world with clock := clock, rng := rng } })
  | operate {n : Network ν β} (e : ν) (o : Operation) (h : Reaches m n) :
      Reaches m (n.operate e o)
  | deliver {n : Network ν β} (e : ν) (stamp : Stamp) {a : Handover ν β}
      (ha : a ∈ n.handovers) (hwaiting : (n.peer e).waiting = some a.request)
      (h : Reaches m n) : Reaches m (n.set e ((n.peer e).deliver stamp a))
  | present {n : Network ν β} (e : ν) (t : TokenHandle) (i : ι) (h : Reaches m n) :
      Reaches m ((home e).place (((home e).issuer n).present ((home e).clock n) t i).2 n)
  | settle {n : Network ν β} (e : ν) (t : TokenHandle) (i : ι) (serial : ℕ)
      (issuedAt : Timestamp) (value : Option (β i)) (h : Reaches m n) :
      Reaches m ((home e).place
        (((home e).issuer n).settle ((home e).clock n) t i serial issuedAt value).2 n)

/-- What is known of the vaults of a network, and of their answers, is right. -/
structure Good (n : Network ν β) : Prop where
  peer : ∀ e, (n.peer e).Good
  handovers : ∀ a ∈ n.handovers, a.Packed

omit [DecidableEq ν] in
theorem IsFresh.good (h : n.IsFresh) : n.Good where
  peer e := by
    obtain ⟨⟨settings, policy, identity, hvault⟩, hwaiting, horigin⟩ := h.1 e
    obtain ⟨-, hfresh⟩ := Vault.ofSettings?_eq_ok_iff.mp hvault
    refine ⟨⟨_, hfresh ▸ Vault.Sound.fresh settings policy identity⟩, ?_, ?_⟩
    · rw [hwaiting]
      nofun
    · rw [horigin, hfresh]
      rfl
  handovers a ha := by
    rw [h.2] at ha
    cases ha

/-- Whatever happens at one vault leaves the others as they are. -/
theorem Good.set (hn : n.Good) (e : ν) {p : Peer ν β} (hp : p.Good) : (n.set e p).Good where
  peer d := by
    rw [Network.set]
    by_cases hd : d = e
    · rw [hd]
      dsimp only
      rwa [Function.update_self]
    · dsimp only
      rw [Function.update_of_ne hd]
      exact hn.peer d
  handovers := hn.handovers

theorem Good.operate (hn : n.Good) (e : ν) (o : Operation) : (n.operate e o).Good where
  peer := (hn.set e ((hn.peer e).run e o)).peer
  handovers a ha := by
    rcases List.mem_append.mp ha with ha | ha
    · exact (hn.peer e).packed (Option.mem_toList.mp ha)
    · exact hn.handovers a ha

variable [DecidableEq ι]

theorem Reaches.good (h : Reaches m n) (hm : m.Good) : n.Good := by
  induction h with
  | refl => exact hm
  | elsewhere e clock rng h ih => exact ih.set e ((ih.peer e).elsewhere clock rng)
  | operate e o h ih => exact ih.operate e o
  | deliver e stamp ha hwaiting h ih =>
    exact ih.set e ((ih.peer e).deliver stamp (ih.handovers _ ha) hwaiting)
  | present e t i h ih =>
    refine ih.set e ((ih.peer e).verdicts (Issuer.sameButVerdicts_present _ t i _) ?_)
    intro hinstalled
    rw [home, Issuer.present_of_installed_eq_none hinstalled]
  | settle e t i serial issuedAt value h ih =>
    refine ih.set e
      ((ih.peer e).verdicts (Issuer.sameButVerdicts_settle _ t i serial issuedAt value _) ?_)
    intro hinstalled
    rw [home, Issuer.settle_of_installed_eq_none hinstalled]

/-- A validation whose transform acts on the network leads to networks that may come about. -/
theorem Reaches.validate {t : TokenHandle} {i : ι}
    {transform : Bytes → Network ν β → Option (β i) × Network ν β} (e : ν)
    (htransform : ∀ payload n, Reaches m n → Reaches m (transform payload n).2)
    (h : Reaches m n) : Reaches m (Issuer.validateIn (home e) t i transform n).2 := by
  have hpresent := h.present e t i
  unfold Issuer.validateIn
  rcases hpresented : ((home e).issuer n).present ((home e).clock n) t i with
    ⟨_ | value | ⟨serial, token⟩, issuer⟩
  · rw [hpresented] at hpresent
    exact hpresent
  · rw [hpresented] at hpresent
    exact hpresent
  · rw [hpresented] at hpresent
    exact (htransform token.payload _ hpresent).settle e t i serial token.issuedAt _

end Network

end QuorumVault
