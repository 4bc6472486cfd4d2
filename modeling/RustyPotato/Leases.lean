import RustyPotato.KeyIsolation
import RustyPotato.ReadOnly
import RustyPotato.Refinement

/-!
# Leases

A client takes a key with `SET key token NX` and a time to live, and gives it back with `DEL`.
Others may read the key and do what they like elsewhere, or take everything away with `FLUSHDB`. The
key has one holder at a time, and who is refused is refused for a lease in force.
-/

namespace RustyPotato

/-- What a command is to the lease. -/
inductive LeaseRole where
  | acquire (token : Bytes) (choice : SetTtlChoice) (expiry : Expiry)
  | release (q : Query)
  | other

structure Contact where
  env : Env
  cmd : ParsedCommand
  role : LeaseRole

namespace Contact

variable (u : CaseMap) (key : String)

/-- The command plays its part. The others only read the key, or do not name it. -/
def Fits (x : Contact) : Prop :=
  match x.role with
  | .acquire token choice expiry =>
    choice.expiry? = some expiry ∧ expiry.Timely x.env.clock ∧
      (Query.set key token { ttl := choice, existence := .onlyIfNotExists }).SaidBy u x.cmd
  | .release q => (q = .flushdb ∨ ∃ keys, key ∈ keys ∧ q = .del keys) ∧ q.SaidBy u x.cmd
  | .other =>
    serverRegistry.isMutation u x.cmd.name = false ∨ x.cmd.NamesKeys u ∧ key ∉ x.cmd.named u

def command (x : Contact) : Env × ParsedCommand := (x.env, x.cmd)

/-- The store when this comes after those. -/
def storeAfter (before : List Contact) (s : MemoryStore) : MemoryStore :=
  (respondAll u (before.map command) s).2

def answer (before : List Contact) (x : Contact) (s : MemoryStore) :
    Option (Except String ResponseValue) :=
  (respond u x.env x.cmd (storeAfter u before s)).1

/-- The key is taken until `deadline`. -/
def Grants (before : List Contact) (x : Contact) (s : MemoryStore) (deadline : Int) : Prop :=
  ∃ token choice expiry, x.role = .acquire token choice expiry ∧
    deadline = expiry.instant x.env.clock ∧ answer u before x s = some (.ok (.simpleString "OK"))

def Refuses (before : List Contact) (x : Contact) (s : MemoryStore) : Prop :=
  (∃ token choice expiry, x.role = .acquire token choice expiry) ∧
    answer u before x s = some (.ok .nilBulk)

def IsRelease (x : Contact) : Prop := ∃ q, x.role = .release q

theorem storeAfter_snoc (before : List Contact) (x : Contact) (s : MemoryStore) :
    storeAfter u (before ++ [x]) s = (respond u x.env x.cmd (storeAfter u before s)).2 := by
  induction before generalizing s with
  | nil => rfl
  | cons y before ih => exact ih _

theorem storeAfter_append (before after : List Contact) (s : MemoryStore) :
    storeAfter u (before ++ after) s = storeAfter u after (storeAfter u before s) := by
  induction before generalizing s with
  | nil => rfl
  | cons y before ih => exact ih _

theorem forward_append (a b : Clock) (before after : List Contact) (x : Contact)
    (h : Forward a b ((before ++ x :: after).map command)) :
    Forward a x.env.clock (before.map command) ∧ Forward x.env.clock b (after.map command) := by
  induction before generalizing a with
  | nil => exact h
  | cons y before ih =>
    obtain ⟨hbefore, hafter⟩ := ih y.env.clock h.2
    exact ⟨⟨h.1, hbefore⟩, hafter⟩

theorem forward_le (a b : Clock) (mid : List Contact) (h : Forward a b (mid.map command)) :
    a.le b := by
  induction mid generalizing a with
  | nil => exact h
  | cons x mid ih => exact Nat.le_trans h.1 (ih x.env.clock h.2)

theorem alive_before (a b : Clock) (h : a.le b) (e : Entry) (hlasts : e.isExpired b = false) :
    Entry.alive a e = some e := by
  rw [Entry.alive_eq_some]
  cases hexpired : e.isExpired a with
  | false => exact ⟨rfl, rfl⟩
  | true =>
    rw [Entry.isExpired_mono a b h e hexpired] at hlasts
    cases hlasts

theorem unexpired_of_live (c : Clock) (s : MemoryStore) (e : Entry) (h : s.live c key = some e) :
    e.isExpired c = false := by
  unfold MemoryStore.live Slot.live at h
  obtain ⟨stored, hstored, rfl⟩ := Option.map_eq_some_iff.mp h
  simpa using (Option.filter_eq_some_iff.mp hstored).2

/-! ## One command -/

section
variable (x : Contact) (s : MemoryStore)

theorem acquire_free (token : Bytes) (choice : SetTtlChoice) (expiry : Expiry)
    (hrole : x.role = .acquire token choice expiry) (hx : x.Fits u key)
    (hfree : s.live x.env.clock key = none) :
    (respond u x.env x.cmd s).1 = some (.ok (.simpleString "OK")) ∧
      (respond u x.env x.cmd s).2.live x.env.clock key =
        Entry.alive x.env.clock ⟨.string token, some (expiry.instant x.env.clock)⟩ := by
  simp only [Fits, hrole] at hx
  obtain ⟨hchoice, htimely, hsaid⟩ := hx
  have hdeadline : choice.deadline x.env.clock none = some (expiry.instant x.env.clock) := by
    cases choice <;> cases hchoice <;> rfl
  obtain ⟨hanswer, hlive⟩ := Query.respond_meaning u x.env x.cmd _ hsaid (by
    intro expiry' hexpiry
    rw [hchoice] at hexpiry
    cases hexpiry
    exact htimely) s
  rw [hanswer, hlive]
  simp [Query.meaning, hfree, Slot.allows, Database.put, hdeadline]

theorem acquire_taken (token : Bytes) (choice : SetTtlChoice) (expiry : Expiry)
    (hrole : x.role = .acquire token choice expiry) (hx : x.Fits u key) (e : Entry)
    (htaken : s.live x.env.clock key = some e) :
    (respond u x.env x.cmd s).1 = some (.ok .nilBulk) ∧
      (respond u x.env x.cmd s).2.live x.env.clock key = some e := by
  simp only [Fits, hrole] at hx
  obtain ⟨hchoice, htimely, hsaid⟩ := hx
  obtain ⟨hanswer, hlive⟩ := Query.respond_meaning u x.env x.cmd _ hsaid (by
    intro expiry' hexpiry
    rw [hchoice] at hexpiry
    cases hexpiry
    exact htimely) s
  rw [hanswer, hlive]
  simp [Query.meaning, htaken, Slot.allows]

theorem release_live (q : Query) (hrole : x.role = .release q) (hx : x.Fits u key) :
    (respond u x.env x.cmd s).2.live x.env.clock key = none := by
  simp only [Fits, hrole] at hx
  obtain ⟨rfl | ⟨keys, hkey, rfl⟩, hsaid⟩ := hx
  · rw [(Query.respond_meaning u x.env x.cmd _ hsaid trivial s).2]
    rfl
  · rw [(Query.respond_meaning u x.env x.cmd _ hsaid trivial s).2]
    simp [Query.meaning, hkey]

theorem other_live (hrole : x.role = .other) (hx : x.Fits u key) :
    (respond u x.env x.cmd s).2.live x.env.clock key = s.live x.env.clock key := by
  simp only [Fits, hrole] at hx
  unfold MemoryStore.live
  rcases hx with hread | ⟨hnames, hkey⟩
  · rcases respond_onlyPurged u x.env x.cmd hread s key with hsame | ⟨hgone, e, he, hexpired⟩
    · rw [hsame]
    · have hslot : s.slot key = ⟨some e, (s.slot key).index⟩ := by rw [← he]
      rw [hgone, hslot, Slot.live_expired x.env.clock e _ hexpired]
      rfl
  · have hlocal := (respond_local u x.env x.env.hashOrder x.env.hashOrder x.cmd hnames s s
      fun _ _ => rfl).2
    rw [((hlocal key).2 hkey).1]

end

/-! ## A lease in force -/

/-- Until its deadline only a release ends it. By induction on what comes in between. -/
theorem held_through (mid : List Contact) (a b : Clock) (hclocks : Forward a b (mid.map command))
    (hfits : ∀ z ∈ mid, z.Fits u key) (hkept : ∀ z ∈ mid, ¬ z.IsRelease) (e : Entry)
    (hlasts : e.isExpired b = false) (s : MemoryStore) (h : s.live a key = some e) :
    (storeAfter u mid s).live b key = some e := by
  induction mid generalizing a s with
  | nil =>
    change s.live b key = some e
    rw [MemoryStore.live_later a b hclocks s key, h, Option.bind_some, Entry.alive_eq_some]
    exact ⟨hlasts, rfl⟩
  | cons x mid ih =>
    have hhere : s.live x.env.clock key = some e := by
      rw [MemoryStore.live_later a x.env.clock hclocks.1 s key, h, Option.bind_some]
      exact alive_before x.env.clock b (forward_le x.env.clock b mid hclocks.2) e hlasts
    have hfit := hfits x List.mem_cons_self
    refine ih x.env.clock hclocks.2 (fun z hz => hfits z (List.mem_cons_of_mem _ hz))
      (fun z hz => hkept z (List.mem_cons_of_mem _ hz)) (respond u x.env x.cmd s).2 ?_
    cases hrole : x.role with
    | acquire token choice expiry =>
      exact (acquire_taken u key x s token choice expiry hrole hfit e hhere).2
    | release q => exact absurd ⟨q, hrole⟩ (hkept x List.mem_cons_self)
    | other => rw [other_live u key x s hrole hfit, hhere]

/--
What is seen under the key comes from a grant that was not given back. By induction from the end of
the run.
-/
theorem holder_of_live (before : List Contact) (a c : Clock)
    (hclocks : Forward a c (before.map command)) (hfits : ∀ z ∈ before, z.Fits u key)
    (s : MemoryStore) (hs : s.live a key = none) (e : Entry)
    (h : (storeAfter u before s).live c key = some e) :
    ∃ b₁ x b₂ deadline, before = b₁ ++ x :: b₂ ∧ x.Grants u b₁ s deadline ∧
      (∀ z ∈ b₂, ¬ z.IsRelease) ∧
      e.deadline = some deadline := by
  induction before using List.reverseRecOn generalizing c with
  | nil =>
    have hnone : s.live c key = none := by
      rw [MemoryStore.live_later a c hclocks s key, hs, Option.bind_none]
    change s.live c key = some e at h
    rw [hnone] at h
    cases h
  | append_singleton before z ih =>
    obtain ⟨hbefore, hz⟩ := forward_append a c before [] z hclocks
    have hfit := hfits z (by simp)
    rw [storeAfter_snoc, MemoryStore.live_later z.env.clock c hz _ key] at h
    have hlive : (respond u z.env z.cmd (storeAfter u before s)).2.live z.env.clock key =
        some e := by
      obtain ⟨e', he', halive⟩ := Option.bind_eq_some_iff.mp h
      rw [he', ((Entry.alive_eq_some c e' e).mp halive).2]
    -- If the last command leaves the key as it was, the holder is an earlier one.
    have hearlier : ¬ z.IsRelease → (storeAfter u before s).live z.env.clock key = some e →
        ∃ b₁ x b₂ deadline, before ++ [z] = b₁ ++ x :: b₂ ∧ x.Grants u b₁ s deadline ∧
        (∀ z ∈ b₂, ¬ z.IsRelease) ∧
          e.deadline = some deadline := by
      intro hkeeps hthere
      obtain ⟨b₁, x, b₂, deadline, rfl, hgrants, hkept, hdeadline⟩ :=
        ih z.env.clock hbefore (fun y hy => hfits y (by simp [hy])) hthere
      refine ⟨b₁, x, b₂ ++ [z], deadline, by simp, hgrants, fun y hy => ?_, hdeadline⟩
      rcases List.mem_append.mp hy with hy | hy
      · exact hkept y hy
      · rwa [List.mem_singleton.mp hy]
    cases hrole : z.role with
    | acquire token choice expiry =>
      have hkeeps : ¬ z.IsRelease := by
        rintro ⟨q, hq⟩
        rw [hrole] at hq
        cases hq
      cases hthere : (storeAfter u before s).live z.env.clock key with
      | none =>
        obtain ⟨hanswer, hafter⟩ := acquire_free u key z _ token choice expiry hrole hfit hthere
        rw [hlive] at hafter
        obtain ⟨-, hentry⟩ := (Entry.alive_eq_some _ _ _).mp hafter.symm
        refine ⟨before, z, [], expiry.instant z.env.clock, rfl,
          ⟨token, choice, expiry, hrole, rfl, hanswer⟩, by simp, ?_⟩
        rw [← hentry]
      | some e' =>
        obtain ⟨-, hafter⟩ := acquire_taken u key z _ token choice expiry hrole hfit e' hthere
        rw [hlive] at hafter
        exact hearlier hkeeps (hthere.trans hafter.symm)
    | release q =>
      rw [release_live u key z _ q hrole hfit] at hlive
      cases hlive
    | other =>
      have hkeeps : ¬ z.IsRelease := by
        rintro ⟨q, hq⟩
        rw [hrole] at hq
        cases hq
      rw [other_live u key z _ hrole hfit] at hlive
      exact hearlier hkeeps hlive

end Contact

open Contact in
/--
The key is free at the start. Two grants are apart by a release or by the deadline of the first, and
a refusal comes from a grant that has not been given back and whose deadline has not passed.
-/
theorem leases_exclusive (u : CaseMap) (key : String) (a b : Clock) (s : MemoryStore)
    (hs : s.live a key = none) (contacts : List Contact)
    (hclocks : Forward a b (contacts.map command)) (hfits : ∀ x ∈ contacts, x.Fits u key) :
    (∀ before x mid y after d d', contacts = before ++ x :: (mid ++ y :: after) →
      x.Grants u before s d →
      y.Grants u (before ++ x :: mid) s d' → (∃ z ∈ mid, z.IsRelease) ∨ d < y.env.clock.now) ∧
    ∀ before y after, contacts = before ++ y :: after → y.Refuses u before s →
      ∃ b₁ x b₂ d, before = b₁ ++ x :: b₂ ∧ x.Grants u b₁ s d ∧ (∀ z ∈ b₂, ¬ z.IsRelease) ∧
        y.env.clock.now ≤ d := by
  refine ⟨?_, ?_⟩
  · rintro before x mid y after d d' rfl ⟨token, choice, expiry, hrole, rfl, hgranted⟩
      ⟨token', choice', expiry', hrole', -, hgranted'⟩
    by_contra hboth
    rw [not_or] at hboth
    obtain ⟨hkept, hlasts⟩ := hboth
    have hfit := hfits x (by simp)
    have hfit' := hfits y (by simp)
    obtain ⟨hbefore, hrest⟩ := forward_append a b before (mid ++ y :: after) x hclocks
    obtain ⟨hmid, -⟩ := forward_append x.env.clock b mid after y hrest
    have hunexpired : Entry.isExpired y.env.clock ⟨.string token,
      some (expiry.instant x.env.clock)⟩ = false := by
      simp only [Entry.isExpired, decide_eq_false_iff_not]
      exact hlasts
    have hfree : (storeAfter u before s).live x.env.clock key = none := by
      cases hthere : (storeAfter u before s).live x.env.clock key with
      | none => rfl
      | some e =>
        have hrefused := (acquire_taken u key x _ token choice expiry hrole hfit e hthere).1
        have hsame := hgranted.symm.trans hrefused
        cases hsame
    have htaken := (acquire_free u key x _ token choice expiry hrole hfit hfree).2
    rw [alive_before x.env.clock y.env.clock (forward_le _ _ mid hmid) _ hunexpired] at htaken
    have hheld := held_through u key mid x.env.clock y.env.clock hmid (fun z hz => hfits z
      (by simp [hz])) (fun z hz hrelease => hkept ⟨z, hz, hrelease⟩) _ hunexpired _ htaken
    have hrefused := (acquire_taken u key y _ token' choice' expiry' hrole' hfit' _ hheld).1
    have hstore : storeAfter u (before ++ x :: mid) s =
        storeAfter u mid (respond u x.env x.cmd
          (storeAfter u before s)).2 := storeAfter_append u before (x :: mid) s
    rw [← hstore] at hrefused
    have hsame := hgranted'.symm.trans hrefused
    cases hsame
  · rintro before y after rfl ⟨⟨token, choice, expiry, hrole⟩, hrefused⟩
    have hfit := hfits y (by simp)
    obtain ⟨hbefore, -⟩ := forward_append a b before after y hclocks
    cases hthere : (storeAfter u before s).live y.env.clock key with
    | none =>
      have hgranted := (acquire_free u key y _ token choice expiry hrole hfit hthere).1
      have hsame := hrefused.symm.trans hgranted
      cases hsame
    | some e =>
      obtain ⟨b₁, x, b₂, d, hsplit, hgrants, hkept, hdeadline⟩ :=
        holder_of_live u key before a y.env.clock hbefore (fun z hz => hfits z (by simp [hz])) s hs
          e hthere
      refine ⟨b₁, x, b₂, d, hsplit, hgrants, hkept, ?_⟩
      have halive := unexpired_of_live key y.env.clock _ e hthere
      simp only [Entry.isExpired, hdeadline, decide_eq_false_iff_not] at halive
      omega

/-- Someone asks for the key, for ten seconds. -/
def Contact.ask (c : Clock) (token : String) : Contact where
  env := .atClock c
  cmd := ⟨"SET", [utf8 "k", utf8 token, utf8 "NX", utf8 "EX", utf8 "10"]⟩
  role := .acquire (utf8 token) (.seconds 10) (.seconds 10)

theorem Contact.ask_fits (c : Clock) (token : String) : (ask c token).Fits asciiCaseMap "k" := by
  have hname : "SET" = asciiCaseMap.toUppercase "SET" := by decide
  have hopts : parseSetOptions [utf8 "NX", utf8 "EX", utf8 "10"] =
      .ok { ttl := .seconds 10, existence := .onlyIfNotExists } := by
    decide +kernel
  refine ⟨rfl, ?_, hname, _, rfl, hopts⟩
  have hclock := c.mono_lt
  simp only [Expiry.Timely, Clock.HasRoom, ask, Env.atClock, Clock.now, fromSecs, nanosPerSec,
    nanosPerMilli] at *
  push_cast
  omega

def Clock.fiveLater : Clock := .ofSecs 105 (by decide)

open Contact in
/-- The second to ask, five seconds after the first, is refused for the lease of the first. -/
theorem second_refused :
    ∃ d, (ask Env.sample.clock "a").Grants asciiCaseMap [] .new d ∧ Clock.fiveLater.now ≤ d := by
  obtain ⟨-, hlive⟩ := acquire_free asciiCaseMap "k" (ask Env.sample.clock "a") .new _ _ _ rfl
    (ask_fits ..) rfl
  have hthere : (storeAfter asciiCaseMap [ask Env.sample.clock "a"] .new).live Clock.fiveLater "k" =
      some ⟨.string (utf8 "a"), some 110000000000⟩ := by
    have hlater := MemoryStore.live_later Env.sample.clock .fiveLater (by decide)
      (storeAfter asciiCaseMap [ask Env.sample.clock "a"] .new) "k"
    rw [hlater]
    exact (congrArg (Option.bind · (Entry.alive _)) hlive).trans (by decide +kernel)
  obtain ⟨hrefused, -⟩ :=
    acquire_taken asciiCaseMap "k" (ask .fiveLater "b") _ _ _ _ rfl (ask_fits ..) _ hthere
  obtain ⟨-, hholders⟩ := leases_exclusive asciiCaseMap "k" Env.sample.clock .fiveLater .new rfl
    [ask Env.sample.clock "a", ask .fiveLater "b"] (by decide +kernel) (by simp [ask_fits])
  obtain ⟨b₁, x, b₂, d, hsplit, hgrants, -, hlasts⟩ :=
    hholders [ask Env.sample.clock "a"] (ask .fiveLater "b") [] rfl ⟨⟨_, _, _, rfl⟩, hrefused⟩
  cases b₁ with
  | nil =>
    cases hsplit
    exact ⟨d, hgrants, hlasts⟩
  | cons y b₁ => simp at hsplit

end RustyPotato
