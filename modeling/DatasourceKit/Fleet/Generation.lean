/-
  The generations of the launches of one unit, where passes, `set_desired`, heartbeats
  and clearances run one at a time and each may be cut off at any step.

  * `launches_increase`: of two acknowledged launches the later one has the greater
    generation, if a pass launches only when every pass that has acknowledged a child
    has also saved the state;
  * `generation_reused`: otherwise two children of one generation may run.
-/
import DatasourceKit.Fleet.StateFile

namespace DatasourceKit

open Interleave Interleave.Prog Interleave.Machine

/-- Thread 0 runs the passes, state changes, heartbeats and clearances, every other
    thread wrappers. -/
def OneAtATime : UnitAct → Prop
  | .start i (.gate ..) => i ≠ 0
  | .start _ (.spawn ..) => False
  | .start _ .stop => False
  | .start i _ => i = 0
  | _ => True

/-- The entry is a save of the state. -/
def Entry.saves (e : Entry) : Bool :=
  e.ok && match e.op with
    | .replaceState _ => true
    | _ => false

/-- The call number `n` has saved the state. -/
def SavedBy (t : List Entry) (n : ℕ) : Prop := ∃ e ∈ t, e.id = n ∧ e.saves = true

/-- A step that launches only if every call that has acknowledged a child has saved
    the state. -/
def LaunchesSaved (c : UnitCfg) : UnitAct → Prop
  | .op i _ => ∀ l, c.next i = some (.popen l) →
      ∀ kid ∈ c.sh.kids, kid.sent = ack → SavedBy c.sh.trace kid.call
  | _ => True

/-- The generations of the launches so far. -/
structure LaunchInv (w : UnitWorld) : Prop where
  gate : ∀ i ≠ 0, ∀ k, (w.mem i).call = some k → ∃ n fuel, k = .gate n fuel
  kidless : ∀ i ≠ 0, (w.mem i).kid = none
  noSpawn : ∀ spec g rounds, (w.mem 0).call ≠ some (.spawn spec g rounds)
  copy : ∀ c, (w.mem 0).loaded = some c →
    ((∃ spec policy rounds, (w.mem 0).call = some (.reconcile spec policy rounds)) →
      (w.mem 0).saved = false) → genOf w.state = genOf c
  num : w.Numbered
  kidLt : ∀ (j : ℕ) (a : Kid), w.kids[j]? = some a → a.call < w.calls
  own : ∀ k pid l, (w.mem 0).kid = some (k, pid, l) → k + 1 = w.kids.length ∧
    (∃ spec policy rounds, (w.mem 0).call = some (.reconcile spec policy rounds)) ∧
    ∃ a : Kid, w.kids[k]? = some a ∧ a.launch = l
  mine : (w.mem 0).call ≠ none → ∀ (j : ℕ) (a : Kid), w.kids[j]? = some a → a.call = w.id 0 →
    ∃ pid l, (w.mem 0).kid = some (j, pid, l)
  unsaved : (w.mem 0).call ≠ none → (w.mem 0).saved = false → ¬ SavedBy w.trace (w.id 0)
  covered : ∀ (j : ℕ) (a : Kid), w.kids[j]? = some a → SavedBy w.trace a.call →
    ∃ n s, a.launch.generation = some n ∧ genOf w.state = .ok s ∧ n ≤ s
  order : ∀ (j k : ℕ) (a b : Kid), j < k → w.kids[j]? = some a → w.kids[k]? = some b →
    a.sent = ack → ∃ m n, a.launch.generation = some m ∧ b.launch.generation = some n ∧ m < n

theorem savedBy_cons {e : Entry} {t : List Entry} {n : ℕ} (he : e.saves = false) :
    SavedBy (e :: t) n ↔ SavedBy t n := by
  simp [SavedBy, he]

/-- A step that saves nothing and launches nothing. -/
theorem LaunchInv.frame {w w' : UnitWorld} (h : LaunchInv w) {k : ℕ} {f : Kid → Kid}
    (hcall : (w'.mem 0).call = (w.mem 0).call) (hkid : (w'.mem 0).kid = (w.mem 0).kid)
    (hsaved : (w'.mem 0).saved = (w.mem 0).saved)
    (hcopy : ∀ c, (w'.mem 0).loaded = some c → (w.mem 0).loaded = some c ∨ genOf w.state = genOf c)
    (hgate : ∀ i ≠ 0, ((w'.mem i).kid = none) ∧
      ∀ k, (w'.mem i).call = some k → ∃ n fuel, k = .gate n fuel)
    (hid : w'.id 0 = w.id 0) (hnum : w'.Numbered) (hcalls : w.calls ≤ w'.calls)
    (hstate : w'.state = w.state) (hkids : w'.kids = w.kids.modify k f)
    (hf : ∀ kid : Kid, kid.Keeps (f kid) ∧ (k + 1 ≠ w.kids.length → (f kid).sent = kid.sent))
    (htrace : ∀ e ∈ w'.trace, e ∈ w.trace ∨ e.saves = false) : LaunchInv w' := by
  have hback : ∀ (j : ℕ) (b : Kid), w'.kids[j]? = some b → ∃ a, w.kids[j]? = some a ∧ a.Keeps b ∧
      (j + 1 ≠ w.kids.length → b.sent = a.sent) := by
    intro j b hb
    rw [hkids] at hb
    obtain ⟨a, ha, rfl | ⟨rfl, rfl⟩⟩ := UnitWorld.getElem?_modify hb
    · exact ⟨b, ha, ⟨rfl, rfl, rfl⟩, fun _ => rfl⟩
    · exact ⟨a, ha, hf a⟩
  have hsaves : ∀ n, SavedBy w'.trace n → SavedBy w.trace n := by
    rintro n ⟨e, he, hn, hs⟩
    rcases htrace e he with he | hs'
    · exact ⟨e, he, hn, hs⟩
    · rw [hs'] at hs; cases hs
  refine ⟨fun i hi => (hgate i hi).2, fun i hi =>
    (hgate i hi).1, ?_, ?_, hnum, ?_, ?_, ?_, ?_, ?_, ?_⟩
  · rw [hcall]; exact h.noSpawn
  · intro c hc hpass
    rw [hcall, hsaved] at hpass
    rw [hstate]
    rcases hcopy c hc with hc | hc
    · exact h.copy c hc hpass
    · exact hc
  · intro j b hb
    obtain ⟨a, ha, hk, -⟩ := hback j b hb
    exact hk.call ▸ lt_of_lt_of_le (h.kidLt j a ha) hcalls
  · intro n pid l hn
    rw [hkid] at hn
    obtain ⟨hlen, hrec, a, ha, hal⟩ := h.own n pid l hn
    refine ⟨by rw [hlen, hkids, List.length_modify], hcall ▸ hrec, ?_⟩
    have hn' : n < w'.kids.length := by rw [hkids, List.length_modify]; omega
    obtain ⟨a', ha', hk, -⟩ := hback n _ (List.getElem?_eq_getElem hn')
    rw [ha] at ha'
    cases ha'
    exact ⟨_, List.getElem?_eq_getElem hn', hk.launch.trans hal⟩
  · intro hc j b hb hbc
    obtain ⟨a, ha, hk, -⟩ := hback j b hb
    rw [hkid]
    exact h.mine (hcall ▸ hc) j a ha (by rw [← hk.call, hbc, hid])
  · intro hc hs hsv
    rw [hid] at hsv
    exact h.unsaved (hcall ▸ hc) (hsaved ▸ hs) (hsaves _ hsv)
  · intro j b hb hsv
    obtain ⟨a, ha, hk, -⟩ := hback j b hb
    rw [hk.call] at hsv
    rw [hk.launch, hstate]
    exact h.covered j a ha (hsaves _ hsv)
  · intro j n a b hjn ha hb hack
    obtain ⟨a', ha', hka, hsent⟩ := hback j a ha
    obtain ⟨b', hb', hkb, -⟩ := hback n b hb
    have hn : n < w.kids.length := (List.getElem?_eq_some_iff.1 hb').1
    rw [hka.launch, hkb.launch]
    exact h.order j n a' b' hjn ha' hb' ((hsent (by omega)).symm.trans hack)

/-- A launch: the persisted generation is at least that of every acknowledged child. -/
theorem LaunchInv.popen {unit : String} {w v : UnitWorld} (h : LaunchInv w) {ch : UnitEnv}
    {l : Launch} {r : Except Exc (ℕ × ℤ)} (hnum : (v.record 0 (.popen l) r).Numbered)
        (hok : (UnitOp.popen l).ok unit (w.mem 0))
    (hall : ∀ kid ∈ w.kids, kid.sent = ack → SavedBy w.trace kid.call)
    (he : w.effect 0 ch (.popen l) = some (r, v)) : LaunchInv (v.record 0 (.popen l) r) := by
  simp only [UnitWorld.effect, Option.some.injEq, Prod.mk.injEq] at he
  obtain ⟨rfl, rfl⟩ := he
  obtain ⟨-, hkid, -, -, -, -, hof⟩ := hok
  have hrec : ∃ spec policy rounds, (w.mem 0).call = some (.reconcile spec policy rounds) := by
    unfold LaunchOf at hof
    split at hof
    · rename_i spec g rounds hc
      exact absurd hc (h.noSpawn spec g rounds)
    · exact ⟨_, _, _, ‹_›⟩
    · exact hof.elim
  obtain ⟨spec, policy, rounds, hcall⟩ := hrec
  simp only [LaunchOf, hcall] at hof
  obtain ⟨-, hsaved, -, c, g, hload, hg, hgen⟩ := hof
  have hbusy : (w.mem 0).call ≠ none := by simp [hcall]
  have hstate : genOf w.state = .ok g := by
    rw [h.copy c hload fun _ => hsaved, ← genOf_eq spec.unit c, hg]
  set new : Kid := { launch := l, pid := ch.pid, call := w.id 0 } with hnew
  have hold : ∀ j a, (w.kids ++ [new])[j]? = some a →
      w.kids[j]? = some a ∨ j = w.kids.length ∧ a = new := by
    intro j a ha
    rcases Nat.lt_or_ge j w.kids.length with hj | hj
    · rw [List.getElem?_append_left hj] at ha; exact .inl ha
    · rw [List.getElem?_append_right hj] at ha
      obtain ⟨hlt, hget⟩ := List.getElem?_eq_some_iff.1 ha
      have hz : j = w.kids.length := by simp only [List.length_singleton] at hlt; omega
      subst hz
      exact .inr ⟨rfl, by simpa using hget.symm⟩
  have hmem : ∀ j, j ≠ 0 → (({ w with kids := w.kids ++ [new] } : UnitWorld).record 0 (.popen l)
      (.ok (w.kids.length, ch.pid))).mem j = w.mem j := fun j hj => UnitWorld.record_mem_ne hj
  have htrace : ∀ n, SavedBy (⟨0, w.id 0, (w.mem 0).call, .popen l, true⟩ :: w.trace) n →
      SavedBy w.trace n :=
    fun n hn => (savedBy_cons (by rfl)).1 hn
  refine ⟨fun i hi => ?_, fun i hi => ?_, ?_, ?_, hnum, ?_, ?_, ?_, ?_, ?_, ?_⟩
  · rw [hmem i hi]; exact h.gate i hi
  · rw [hmem i hi]; exact h.kidless i hi
  · rw [UnitWorld.record_mem_self]; exact h.noSpawn
  · rw [UnitWorld.record_mem_self]; exact h.copy
  · intro j a ha
    rcases hold j a ha with ha | ⟨-, rfl⟩
    · exact h.kidLt j a ha
    · exact h.num.idLt 0
  · intro k pid l' hk
    rw [UnitWorld.record_mem_self] at hk
    cases hk
    refine ⟨by simp [UnitWorld.record], ?_, new, by simp [UnitWorld.record], rfl⟩
    rw [UnitWorld.record_mem_self]
    exact ⟨spec, policy, rounds, hcall⟩
  · intro _ j a ha hac
    rw [UnitWorld.record_mem_self]
    rcases hold j a ha with ha | ⟨rfl, -⟩
    · obtain ⟨_, _, hk⟩ := h.mine hbusy j a ha hac
      rw [hkid] at hk; cases hk
    · exact ⟨_, _, rfl⟩
  · intro _ _ hs
    exact h.unsaved hbusy hsaved (htrace _ hs)
  · intro j a ha hs
    rcases hold j a ha with ha | ⟨-, rfl⟩
    · exact h.covered j a ha (htrace _ hs)
    · exact absurd (htrace _ hs) (h.unsaved hbusy hsaved)
  · intro j k a b hjk ha hb hack
    rcases hold j a ha with ha | ⟨rfl, rfl⟩
    · rcases hold k b hb with hb | ⟨rfl, rfl⟩
      · exact h.order j k a b hjk ha hb hack
      · obtain ⟨n, s, hn, hs, hle⟩ := h.covered j a ha (hall a (List.mem_of_getElem? ha) hack)
        rw [hstate] at hs
        cases hs
        exact ⟨n, g + 1, hn, hgen, by omega⟩
    · have hk := (List.getElem?_eq_some_iff.1 hb).1
      simp only [UnitWorld.record, List.length_append, List.length_singleton] at hk
      omega

/-- A save: the pass that has launched saves the generation of its launch. -/
theorem LaunchInv.save {unit : String} {w : UnitWorld} (h : LaunchInv w) {d : Dict}
    (hnum : (({ w with state := some (.doc d) } : UnitWorld).record 0
      (.replaceState d) (.ok ())).Numbered)
    (hok : StateWrite unit (w.mem 0) d) :
    LaunchInv (({ w with state := some (.doc d) } : UnitWorld).record 0
      (.replaceState d) (.ok ())) := by
  obtain ⟨c, hload, hsame, hmono⟩ := hok.generation
  have hpass : (∃ spec policy rounds, (w.mem 0).call = some (.reconcile spec policy rounds)) →
      (w.mem 0).saved = false := by
    rintro ⟨spec, policy, rounds, hc⟩
    simp only [StateWrite, hc] at hok
    exact hok.2.1
  have hstate := h.copy c hload hpass
  have hbusy : (w.mem 0).call ≠ none := by
    intro hc
    simp only [StateWrite, hc] at hok
  have hmem : ∀ j, j ≠ 0 →
      (({ w with state := some (.doc d) } : UnitWorld).record 0 (.replaceState d)
      (.ok ())).mem j = w.mem j := fun j hj => UnitWorld.record_mem_ne hj
  refine ⟨fun i hi => ?_, fun i hi => ?_, ?_, ?_, hnum, h.kidLt, ?_, ?_, ?_, ?_, h.order⟩
  · rw [hmem i hi]; exact h.gate i hi
  · rw [hmem i hi]; exact h.kidless i hi
  · rw [UnitWorld.record_mem_self]; exact h.noSpawn
  · intro c' hc' hp
    rw [UnitWorld.record_mem_self] at hc' hp
    have hcc : c = c' := Option.some.inj (hload.symm.trans hc')
    rw [← hcc]
    refine hsame fun spec policy rounds hcall => ?_
    exact absurd (hp ⟨spec, policy, rounds, hcall⟩) (by simp [Mem.note])
  · rw [UnitWorld.record_mem_self]; exact h.own
  · rw [UnitWorld.record_mem_self]; exact h.mine
  · intro _ hs
    rw [UnitWorld.record_mem_self] at hs
    cases hs
  · rintro j a ha ⟨e, he, hid, hs⟩
    rcases List.mem_cons.1 he with rfl | he
    · obtain ⟨pid, l, hkid⟩ := h.mine hbusy j a ha hid.symm
      obtain ⟨-, ⟨spec, policy, rounds, hcall⟩, a', ha', hl⟩ := h.own j pid l hkid
      obtain rfl : a = a' := Option.some.inj (ha.symm.trans ha')
      simp only [StateWrite, hcall] at hok
      obtain ⟨-, -, c', -, hd⟩ := hok
      rcases hd.generation with ⟨hk, -⟩ | ⟨g, k, pid', l', -, hk, hgen, hval⟩
      · rw [hk] at hkid; cases hkid
      · rw [hkid] at hk
        cases hk
        exact ⟨g + 1, g + 1, hl ▸ hgen, genOf_doc_ok (by rw [hval]; rfl), Int.le_refl _⟩
    · obtain ⟨n, s, hn, hs', hle⟩ := h.covered j a ha ⟨e, he, hid, hs⟩
      obtain ⟨s', hss, hs''⟩ := hmono s (hstate ▸ hs')
      exact ⟨n, s', hn, hs'', Int.le_trans hle hss⟩

theorem LaunchInv.op {unit : String} {w w' : UnitWorld} (h : LaunchInv w) {i : ℕ} {ch : UnitEnv}
    {o : UnitOp} {r : Except Exc o.Val} (hok : o.Allowed unit (w.mem i))
    (hall : ∀ l, o = .popen l → ∀ kid ∈ w.kids, kid.sent = ack → SavedBy w.trace kid.call)
    (hop : w.op i ch o = some (r, w')) : LaunchInv w' := by
  have hnum := h.num.op hop
  rcases UnitWorld.op_cases hop with ⟨rfl, -⟩ | ⟨r', v, he, rfl, -⟩
  · exact h
  have hrec := UnitWorld.effect_recorded he
  have hgate : i ≠ 0 → o.ofGate = true := by
    intro hi
    obtain ⟨k, hk⟩ := Option.ne_none_iff_exists'.1 hok.busy
    obtain ⟨n, fuel, rfl⟩ := h.gate i hi k hk
    exact hok.gate n fuel hk
  by_cases hpop : ∃ l, o = .popen l
  · obtain ⟨l, rfl⟩ := hpop
    have hi : i = 0 := by
      by_contra hi
      cases hgate hi
    subst hi
    exact h.popen hnum hok.ok (hall l rfl) he
  by_cases hrep : ∃ d, o = .replaceState d
  · obtain ⟨d, rfl⟩ := hrep
    have hi : i = 0 := by
      by_contra hi
      cases hgate hi
    subst hi
    simp only [UnitWorld.effect, Option.some.injEq, Prod.mk.injEq] at he
    obtain ⟨rfl, rfl⟩ := he
    exact h.save hnum hok.ok
  have hnpop : ∀ l, o ≠ .popen l := fun l hl => hpop ⟨l, hl⟩
  have hnrep : ∀ d, o ≠ .replaceState d := fun d hd => hrep ⟨d, hd⟩
  have hs : v.state = w.state := by
    rcases UnitWorld.effect_state he with hs | ⟨d, hd, -⟩
    · exact hs
    · exact absurd hd (hnrep d)
  obtain ⟨l, rfl, -⟩ | ⟨-, k, f, hkids, hf⟩ := UnitWorld.effect_kids he
  · exact absurd rfl (hnpop l)
  have hkeep : ∀ j, ((v.record i o r').mem j).call = (w.mem j).call ∧
      ((v.record i o r').mem j).kid = (w.mem j).kid ∧
          ((v.record i o r').mem j).saved = (w.mem j).saved := by
    intro j
    by_cases hj : j = i
    · subst hj
      rw [hrec.self]
      exact ⟨Mem.note_call r', Mem.note_kid hnpop r', Mem.note_saved hnrep r'⟩
    · rw [hrec.other j hj]; exact ⟨rfl, rfl, rfl⟩
  refine h.frame (k := k) (f := f) (hkeep 0).1 (hkeep 0).2.1 (hkeep 0).2.2 ?_
    (fun j hj => ⟨(hkeep j).2.1.trans (h.kidless j hj), fun c hc =>
      h.gate j hj c ((hkeep j).1 ▸ hc)⟩)
    (congrFun hrec.id 0) hnum (le_of_eq hrec.calls.symm) hs hkids (fun kid => ⟨(hf kid).1, ?_⟩) ?_
  · intro c hc
    by_cases hi : i = 0
    swap
    · rw [hrec.other 0 fun h => hi h.symm] at hc; exact .inl hc
    subst hi
    rw [hrec.self] at hc
    by_cases hread : o = .readState
    · subst hread
      obtain ⟨-, ⟨c', hc', rfl⟩ | ⟨hnone, rfl⟩⟩ := UnitWorld.effect_readState he
      · cases hc; right; rw [hc']
      · cases hc; right; rw [hnone]
    · rw [Mem.note_loaded hread] at hc; exact .inl hc
  · intro hk
    refine (hf kid).2 fun b hb => hk ?_
    subst hb
    obtain ⟨-, -, pid, l, d, hkid, -⟩ := hok.ok
    by_cases hi : i = 0
    · subst hi; exact (h.own k pid l hkid).1
    · rw [h.kidless i hi] at hkid; cases hkid
  · intro e he'
    rw [hrec.trace] at he'
    rcases List.mem_cons.1 he' with rfl | he'
    · right
      cases o <;> first | exact absurd rfl (hnrep _) | simp [Entry.saves]
    · exact .inl he'

/-- Thread 0 begins or ends a call; a call it begins has a new number. -/
theorem LaunchInv.renew {w w' : UnitWorld} (h : LaunchInv w) {k : ℕ} {f : Kid → Kid}
    (hload : (w'.mem 0).loaded = none) (hkid : (w'.mem 0).kid = none)
    (hspawn : ∀ spec g rounds, (w'.mem 0).call ≠ some (.spawn spec g rounds))
    (hmem : ∀ i ≠ 0, w'.mem i = w.mem i) (hnum : w'.Numbered) (hcalls : w.calls ≤ w'.calls)
    (hnew : (w'.mem 0).call ≠ none → w.calls ≤ w'.id 0) (hstate : w'.state = w.state)
    (htrace : w'.trace = w.trace) (hkids : w'.kids = w.kids.modify k f)
    (hf : ∀ kid : Kid, kid.Keeps (f kid) ∧ (f kid).sent = kid.sent) : LaunchInv w' := by
  have hback : ∀ (j : ℕ) (b : Kid), w'.kids[j]? = some b →
      ∃ a, w.kids[j]? = some a ∧ a.Keeps b ∧ b.sent = a.sent := by
    intro j b hb
    rw [hkids] at hb
    obtain ⟨a, ha, rfl | ⟨rfl, rfl⟩⟩ := UnitWorld.getElem?_modify hb
    · exact ⟨b, ha, ⟨rfl, rfl, rfl⟩, rfl⟩
    · exact ⟨a, ha, hf a⟩
  refine ⟨fun i hi => by rw [hmem i hi]; exact h.gate i hi,
    fun i hi => by rw [hmem i hi]; exact h.kidless i hi, hspawn, ?_, hnum, ?_, ?_, ?_, ?_, ?_, ?_⟩
  · intro c hc; rw [hload] at hc; cases hc
  · intro j b hb
    obtain ⟨a, ha, hk, -⟩ := hback j b hb
    exact hk.call ▸ lt_of_lt_of_le (h.kidLt j a ha) hcalls
  · intro k' pid l hk; rw [hkid] at hk; cases hk
  · intro hc j b hb hbc
    obtain ⟨a, ha, hk, -⟩ := hback j b hb
    have hlt := h.kidLt j a ha
    have hle := hnew hc
    rw [hk.call] at hbc
    omega
  · rintro hc - ⟨e, he, hid, -⟩
    have hlt := h.num.entryLt e (htrace ▸ he)
    have hle := hnew hc
    omega
  · intro j b hb hsv
    obtain ⟨a, ha, hk, -⟩ := hback j b hb
    rw [htrace, hk.call] at hsv
    rw [hk.launch, hstate]
    exact h.covered j a ha hsv
  · intro j n a b hjn ha hb hack
    obtain ⟨a', ha', hka, hsent⟩ := hback j a ha
    obtain ⟨b', hb', hkb, -⟩ := hback n b hb
    rw [hka.launch, hkb.launch]
    exact h.order j n a' b' hjn ha' hb' (hsent.symm.trans hack)

theorem LaunchInv.start {unit : String} {w w' : UnitWorld} (h : LaunchInv w) {i : ℕ} {k : UnitCall}
    (hone : OneAtATime (.start i k)) (hs : w.start unit i k = some w') : LaunchInv w' := by
  obtain ⟨hm, hj⟩ := UnitWorld.start_view hs
  obtain ⟨ht, hst, -⟩ := UnitWorld.start_frame hs
  obtain ⟨n, f, hkids, hf⟩ := UnitWorld.start_kids hs
  obtain ⟨hcalls, hidi, hidj⟩ := UnitWorld.start_id hs
  have hnum := h.num.start hs
  by_cases hi : i = 0
  · subst hi
    refine h.renew (by rw [hm]) (by rw [hm]) (fun spec g rounds hc => ?_) hj hnum (by omega)
      (fun _ => by omega) hst ht hkids hf
    rw [hm] at hc
    cases hc
    exact hone
  have h₀ : w'.mem 0 = w.mem 0 := hj 0 (Ne.symm hi)
  refine h.frame (k := n) (f := f) (by rw [h₀]) (by rw [h₀]) (by rw [h₀])
    (fun c hc => .inl (h₀ ▸ hc)) (fun j hj0 => ?_) (hidj 0 (Ne.symm hi)) hnum (by omega) hst hkids
    (fun kid => ⟨(hf kid).1, fun _ => (hf kid).2⟩) fun e he => .inl (ht ▸ he)
  by_cases hji : j = i
  · subst hji
    rw [hm]
    refine ⟨rfl, fun c hc => ?_⟩
    cases hc
    cases k <;> first | exact ⟨_, _, rfl⟩ | exact absurd hone hi | exact hone.elim
  · rw [hj j hji]; exact ⟨h.kidless j hj0, h.gate j hj0⟩

theorem LaunchInv.close {w : UnitWorld} (h : LaunchInv w) (i : ℕ) : LaunchInv (w.close i) := by
  obtain ⟨n, f, hkids, hf⟩ := UnitWorld.close_kids w i
  obtain ⟨hcalls, hid⟩ := UnitWorld.close_id w i
  obtain ⟨ht, hst, -⟩ := UnitWorld.close_frame (w := w) i
  have hnum := h.num.close i
  by_cases hi : i = 0
  · subst hi
    exact h.renew (by simp) (by simp) (by simp) UnitWorld.close_view hnum (by omega) (by simp) hst
      ht hkids hf
  have h₀ : (w.close i).mem 0 = w.mem 0 := UnitWorld.close_view 0 (Ne.symm hi)
  refine h.frame (k := n) (f := f) (by rw [h₀]) (by rw [h₀]) (by rw [h₀])
    (fun c hc => .inl (h₀ ▸ hc)) (fun j hj0 => ?_) (by rw [hid]) hnum (by omega) hst hkids
    (fun kid => ⟨(hf kid).1, fun _ => (hf kid).2⟩) fun e he => .inl (ht ▸ he)
  by_cases hji : j = i
  · subst hji; simp
  · rw [UnitWorld.close_view j hji]; exact ⟨h.kidless j hj0, h.gate j hj0⟩

theorem launchInv_init {environ : Env} {proc : ℕ → ℕ} {pid : Option PidFile}
    {state : Option Content} {tokens : List String} :
    LaunchInv (.init environ proc pid state tokens) := by
  constructor <;> first | exact UnitWorld.numbered_init | simp [UnitWorld.init]

theorem launch_rely (unit : String) :
    Rely (fleet unit) (fun c a => OneAtATime a ∧ LaunchesSaved c a) LaunchInv (fun i w => w.mem i)
    UnitOp.upd (UnitOp.Allowed unit) UnitCall.fin :=
  fleet_rely (fun _ _ _ _ hp h _ hs => h.start hp.1 hs)
    (fun _ _ _ _ _ _ _ _ hp h hr hok hop =>
      h.op hok (fun l hl => hp.2 l (hl ▸ Cfg.next_call hr)) hop)
    (fun _ i _ _ _ h _ _ => h.close i) fun _ i _ h => h.close i

/-- **A later launch has a greater generation than an acknowledged one**, where every
    pass that launches finds the generations of the acknowledged launches saved. -/
theorem launches_increase {unit : String} {environ : Env} {proc : ℕ → ℕ} {pid : Option PidFile}
    {state : Option Content} {tokens : List String} {c : UnitCfg}
    (h : (fleet unit).Reach (fun c a => OneAtATime a ∧ LaunchesSaved c a)
      (idle (.init environ proc pid state tokens)) c) {j k : ℕ} {a b : Kid} (hjk : j < k)
    (ha : c.sh.kids[j]? = some a) (hb : c.sh.kids[k]? = some b) (hack : a.sent = ack) :
    ∃ m n, a.launch.generation = some m ∧ b.launch.generation = some n ∧ m < n :=
  ((launch_rely unit).inv launchInv_init h).1.order j k a b hjk ha hb hack

/-- A clearance of the launch with the token, by thread 0. -/
def clearSteps (generation : ℤ) (token : String) : List UnitAct :=
  [.start 0
      (.clear { unit := "u", generation := some generation, token := token, asserted := true })] ++
    ops 0 18 (answers "") ++ [.finish 0]

def oneAtATime : UnitAct → Bool
  | .start i (.gate ..) => i ≠ 0
  | .start _ (.spawn ..) => false
  | .start _ .stop => false
  | .start i _ => i = 0
  | _ => true

theorem oneAtATime_spec {a : UnitAct} (h : oneAtATime a = true) : OneAtATime a := by
  cases a with
  | start i k => cases k <;> simp_all [oneAtATime, OneAtATime]
  | _ => trivial

def launchesSaved (c : UnitCfg) : UnitAct → Bool
  | .op i _ =>
    match c.next i with
    | some (.popen _) => c.sh.kids.all fun kid => !decide (kid.sent = ack) ||
        c.sh.trace.any fun e => e.id == kid.call && e.saves
    | _ => true
  | _ => true

theorem launchesSaved_spec {c : UnitCfg} {a : UnitAct} (h : launchesSaved c a = true) :
    LaunchesSaved c a := by
  cases a with
  | op i ch =>
    intro l hl kid hkid hack
    simp only [launchesSaved, hl, List.all_eq_true, Bool.or_eq_true, Bool.not_eq_true',
      decide_eq_false_iff_not, List.any_eq_true, Bool.and_eq_true, beq_iff_eq] at h
    exact (h kid hkid).resolve_left (not_not.2 hack)
  | _ => trivial

/-- The child has been acknowledged and has executed the consumer command. -/
def Kid.Ran (kid : Kid) : Prop := kid.sent = ack ∧ 0 < kid.execs

instance (kid : Kid) : Decidable kid.Ran := inferInstanceAs (Decidable (_ ∧ _))

/-- Two children have run, with these generations. -/
def bothRan (m n : ℤ) (c : UnitCfg) : Bool :=
  match c.sh.kids with
  | [a, b] => decide a.Ran && decide b.Ran && a.launch.generation == some m &&
      b.launch.generation == some n
  | _ => false

theorem bothRan_spec {m n : ℤ} {c : UnitCfg} (h : bothRan m n c = true) :
    ∃ a b, c.sh.kids[0]? = some a ∧ c.sh.kids[1]? = some b ∧ a.Ran ∧ b.Ran ∧
      a.launch.generation = some m ∧ b.launch.generation = some n := by
  unfold bothRan at h
  split at h
  · rename_i a b hk
    simp only [Bool.and_eq_true, decide_eq_true_eq, beq_iff_eq] at h
    exact ⟨a, b, by rw [hk]; rfl, by rw [hk]; rfl, h.1.1.1, h.1.1.2, h.1.2, h.2⟩
  · cases h

/-- Two passes, each of which saves its launch, with a clearance between them. -/
theorem launches_increase_two : ∃ c a b, (fleet "u").Reach
    (fun c a => OneAtATime a ∧ LaunchesSaved c a) emptyUnit c ∧ c.sh.kids[0]? = some a ∧
    c.sh.kids[1]? = some b ∧ a.Ran ∧ b.Ran ∧
    ∃ m n, a.launch.generation = some m ∧ b.launch.generation = some n ∧ m < n := by
  obtain ⟨c, hc, hq, -⟩ := Reach.exists_of_run (P := fun c a => OneAtATime a ∧ LaunchesSaved c a)
    (fleet "u") emptyUnit (fun c a => oneAtATime a && launchesSaved c a)
    (launchSteps "t" 0 ++ execSteps ++ passEnd ++ clearSteps 1 "t" ++
      launchSteps "t'" 1 ++ execSteps)
    (bothRan 1 2) (fun c a h => ⟨oneAtATime_spec (Bool.and_eq_true_iff.1 h).1,
      launchesSaved_spec (Bool.and_eq_true_iff.1 h).2⟩) (by decide +kernel)
  obtain ⟨a, b, ha, hb, hra, hrb, -, -⟩ := bothRan_spec hq
  exact ⟨c, a, b, hc, ha, hb, hra, hrb, launches_increase hc (by decide : 0 < 1) ha hb hra.1⟩

/-- A pass is killed in the probe window of a running child; its tombstone is cleared;
    the next pass launches again. -/
def reuse : List UnitAct :=
  launchSteps "t" 0 ++ execSteps ++ [.kill 0] ++ clearSteps 1 "t" ++ launchSteps "t'" 1 ++ execSteps

/-- **A generation can be used twice**: the generation of a child that runs is lost with
    the pass that launched it. -/
theorem generation_reused : ¬ ∀ (unit : String) (environ : Env) (proc : ℕ → ℕ)
    (pid : Option PidFile) (state : Option Content) (tokens : List String) (c : UnitCfg) (j k : ℕ)
    (a b : Kid), (fleet unit).Reach (fun _ a => OneAtATime a)
      (idle (.init environ proc pid state tokens)) c → j < k → c.sh.kids[j]? = some a →
      c.sh.kids[k]? = some b → a.Ran → b.Ran →
      ∃ m n, a.launch.generation = some m ∧ b.launch.generation = some n ∧ m < n := by
  intro h
  obtain ⟨c, hc, hq, -⟩ := Reach.exists_of_run (P := fun _ a => OneAtATime a) (fleet "u") emptyUnit
    (fun _ a => oneAtATime a) reuse (bothRan 1 1) (fun _ _ => oneAtATime_spec) (by decide +kernel)
  obtain ⟨a, b, ha, hb, hra, hrb, hm, hn⟩ := bothRan_spec hq
  obtain ⟨m, n, hm', hn', hlt⟩ := h "u" ∅ _ none none [] c 0 1 a b hc (by decide) ha hb hra hrb
  rw [hm] at hm'
  rw [hn] at hn'
  cases hm'
  cases hn'
  exact absurd hlt (by decide)

end DatasourceKit
