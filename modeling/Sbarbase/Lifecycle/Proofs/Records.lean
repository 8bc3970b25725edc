import Sbarbase.Lifecycle.Effects
import Sbarbase.Lifecycle.Proofs.Hosts
/-!
# A host and its journal

What a journal records is how the environment was before the delete, and the host
differs from it only as far as the journal says. Each write of a delete keeps
this, and each write of a restore.
-/

namespace Sbarbase.Lifecycle.Proofs.Records

open Lib Lifecycle.Host

/-- A container and its record against how it was. -/
structure KeptPart (part : Part) (before now : Container) : Prop where
  identity : now.identity = before.identity
  id : part.id = before.id
  running : part.running = before.running
  stays : now.running = true → before.running = true
  restored : part.phase = .restored → now.running = before.running

/-- The containers of one name against those before. -/
def KeptContainer (before now : Host) (name : String) : Option Part → Prop
  | none => now.named name = before.named name
  | some part => ∃ item item', before.named name = [item] ∧ now.named name = [item'] ∧
      KeptPart part item item'

/-- A member of an entry is the address of a container that was started again. -/
def Restarted (runtime : String) (before now : Host) (service : Service) (member : Option Member) :
    Prop :=
  ∃ port item item', service.port = some port ∧
    before.named (containerName runtime service) = [item] ∧
    now.named (containerName runtime service) = [item'] ∧
    item.running = true ∧ item'.running = true ∧ member = (addressOf item' port).map .url

/-- An entry is the earlier one, up to the addresses of restarted containers. -/
def Republished (runtime : String) (before now : Host) (entry entry' : Entry) : Prop :=
  ∀ key, entry'.get key = entry.get key ∨
    ∃ service : Service, key = service.text ∧
      Restarted runtime before now service (entry'.get key)

/-- The logins and the published entry are as they were. -/
structure SameTenant (runtime : String) (roles : List String) (before now : Host) : Prop where
  logins : ∀ name ∈ roles, now.roles.get name = before.roles.get name
  entry : now.endpoints.get runtime = before.endpoints.get runtime

/-- The logins, the published entry and their record against how they were. -/
structure KeptTenant (runtime : String) (roles : List String) (before now : Host)
    (tenant : Tenant) : Prop where
  record : ∀ name ∈ roles, tenant.roles.get name = before.roles.get name
  entry : tenant.entry = before.endpoints.get runtime
  logins : ∀ name ∈ roles, now.roles.get name = before.roles.get name ∨
    now.roles.get name = some false
  published : ∀ entry' ∈ now.endpoints.get runtime, ∃ entry ∈ before.endpoints.get runtime,
    Republished runtime before now entry entry'
  restored : tenant.phase = .restored →
    (∀ name ∈ roles, now.roles.get name = before.roles.get name) ∧
      (now.endpoints.get runtime).isSome = (before.endpoints.get runtime).isSome

/-- The host against its journal and how it was before the delete. -/
structure Matches (runtime operation : String) (roles : List String) (before now : Host)
    (journal : Journal) : Prop where
  version : journal.version = 1
  own : journal.runtime = runtime
  begun : journal.operation = operation
  container : ∀ service, KeptContainer before now (containerName runtime service)
    (journal.containers.get service)
  unrecorded : journal.tenant = none → SameTenant runtime roles before now
  tenant : ∀ tenant ∈ journal.tenant, KeptTenant runtime roles before now tenant
  /-- Nothing is restored before the restore begins. -/
  deleting : journal.restoreOperation = none →
    (∀ service, ∀ part ∈ journal.containers.get service, part.phase ≠ .restored) ∧
      (∀ tenant ∈ journal.tenant, tenant.phase ≠ .restored) ∧
      ∀ entry' ∈ now.endpoints.get runtime, before.endpoints.get runtime = some entry'
  /-- A container is restored after the tenant, and then its address is published. -/
  ordered : ∀ service, ∀ part ∈ journal.containers.get service, part.phase = .restored →
    (∃ tenant ∈ journal.tenant, tenant.phase = .restored) ∧
      ∀ entry' ∈ now.endpoints.get runtime, part.running = true → service.port ≠ none →
        Restarted runtime before now service (entry'.get service.text)

/-! ## Names -/

theorem text_injective : Function.Injective Service.text := by
  intro a b h
  cases a <;> cases b <;> first | rfl | (revert h; decide)

theorem containerName_injective {runtime : String} {a b : Service}
    (h : containerName runtime a = containerName runtime b) : a = b := by
  apply text_injective
  unfold containerName at h
  exact (String.append_right_inj _).mp h

/-! ## What a write leaves -/

section

variable {runtime : String} {before now now' : Host}

theorem KeptContainer.frame {name : String} {part : Option Part}
    (h : KeptContainer before now name part) (hnamed : now'.named name = now.named name) :
    KeptContainer before now' name part := by
  cases part with
  | none => exact hnamed.trans h
  | some part =>
      obtain ⟨item, item', hbefore, hnow, hkept⟩ := h
      exact ⟨item, item', hbefore, hnamed.trans hnow, hkept⟩

theorem Restarted.frame {service : Service} {member : Option Member}
    (h : Restarted runtime before now service member)
    (hnamed : now'.named (containerName runtime service) =
      now.named (containerName runtime service)) :
    Restarted runtime before now' service member := by
  obtain ⟨port, item, item', hport, hbefore, hnow, hrest⟩ := h
  exact ⟨port, item, item', hport, hbefore, hnamed.trans hnow, hrest⟩

theorem Republished.frame {entry entry' : Entry} (h : Republished runtime before now entry entry')
    (hnamed : ∀ service member, Restarted runtime before now service member →
      Restarted runtime before now' service member) :
    Republished runtime before now' entry entry' := by
  intro key
  exact (h key).imp_right fun ⟨service, hkey, hrestarted⟩ =>
    ⟨service, hkey, hnamed service _ hrestarted⟩

theorem Republished.refl (entry : Entry) : Republished runtime before now entry entry :=
  fun _ => .inl rfl

theorem KeptTenant.frame {roles : List String} {tenant : Tenant}
    (h : KeptTenant runtime roles before now tenant)
    (hroles : ∀ name ∈ roles, now'.roles.get name = now.roles.get name)
    (hentry : now'.endpoints.get runtime = now.endpoints.get runtime)
    (hnamed : ∀ service member, Restarted runtime before now service member →
      Restarted runtime before now' service member) :
    KeptTenant runtime roles before now' tenant where
  record := h.record
  entry := h.entry
  logins name hname := by
    rw [hroles name hname]
    exact h.logins name hname
  published entry' hentry' := by
    rw [hentry] at hentry'
    obtain ⟨entry, hsome, hrepublished⟩ := h.published entry' hentry'
    exact ⟨entry, hsome, hrepublished.frame hnamed⟩
  restored hphase := by
    rw [hentry]
    refine ⟨fun name hname => ?_, (h.restored hphase).2⟩
    rw [hroles name hname]
    exact (h.restored hphase).1 name hname

end

/-! ## Each write -/

namespace Matches

variable {runtime operation : String} {roles : List String} {before now : Host} {journal : Journal}

/-- A journal is written: what it records is right. -/
theorem save (h : Matches runtime operation roles before now journal) {next : Journal}
    (hversion : next.version = journal.version) (hown : next.runtime = journal.runtime)
    (hbegun : next.operation = journal.operation)
    (hcontainer : ∀ service, KeptContainer before now (containerName runtime service)
      (next.containers.get service))
    (hunrecorded : next.tenant = none → SameTenant runtime roles before now)
    (htenant : ∀ tenant ∈ next.tenant, KeptTenant runtime roles before now tenant)
    (hdeleting : next.restoreOperation = none →
      (∀ service, ∀ part ∈ next.containers.get service, part.phase ≠ .restored) ∧
        (∀ tenant ∈ next.tenant, tenant.phase ≠ .restored) ∧
        ∀ entry' ∈ now.endpoints.get runtime, before.endpoints.get runtime = some entry')
    (hordered : ∀ service, ∀ part ∈ next.containers.get service, part.phase = .restored →
      (∃ tenant ∈ next.tenant, tenant.phase = .restored) ∧
        ∀ entry' ∈ now.endpoints.get runtime, part.running = true → service.port ≠ none →
          Restarted runtime before now service (entry'.get service.text)) :
    Matches runtime operation roles before (now.save next) next where
  version := hversion.trans h.version
  own := hown.trans h.own
  begun := hbegun.trans h.begun
  container := hcontainer
  unrecorded := fun hnone => ⟨(hunrecorded hnone).logins, (hunrecorded hnone).entry⟩
  tenant tenant hmem :=
    (htenant tenant hmem).frame (fun _ _ => rfl) rfl fun _ _ hrestarted => hrestarted
  deleting := hdeleting
  ordered := hordered

theorem savePart (h : Matches runtime operation roles before now journal) {service : Service}
    {part : Part} (hkept : KeptContainer before now (containerName runtime service) (some part))
    (hphase : part.phase = .restored → journal.restoreOperation ≠ none ∧
      (∃ tenant ∈ journal.tenant, tenant.phase = .restored) ∧
      ∀ entry' ∈ now.endpoints.get runtime, part.running = true → service.port ≠ none →
        Restarted runtime before now service (entry'.get service.text)) :
    Matches runtime operation roles before (now.save (journal.setPart service part))
      (journal.setPart service part) := by
  have hget : ∀ other, (journal.setPart service part).containers.get other =
      if other = service then some part else journal.containers.get other :=
    fun other => Dict.get_set _ _ _ _
  refine h.save rfl rfl rfl (fun other => ?_) h.unrecorded h.tenant (fun hnone => ?_)
    fun other part' hpart' hrestored => ?_
  · rw [hget]
    split_ifs with hsame
    · rw [hsame]
      exact hkept
    · exact h.container other
  · refine ⟨fun other part' hpart' => ?_, (h.deleting hnone).2⟩
    rw [Option.mem_def, hget] at hpart'
    split_ifs at hpart' with hsame
    · obtain rfl := Option.some.inj hpart'
      exact fun hrestored => (hphase hrestored).1 hnone
    · exact (h.deleting hnone).1 other part' hpart'
  · rw [Option.mem_def, hget] at hpart'
    split_ifs at hpart' with hsame
    · obtain rfl := Option.some.inj hpart'
      subst hsame
      exact (hphase hrestored).2
    · exact h.ordered other part' hpart' hrestored

theorem saveTenant (h : Matches runtime operation roles before now journal) {tenant : Tenant}
    (hkept : KeptTenant runtime roles before now tenant)
    (hphase : tenant.phase = .restored → journal.restoreOperation ≠ none)
    (hlater : ∀ old ∈ journal.tenant, old.phase = .restored → tenant.phase = .restored) :
    Matches runtime operation roles before (now.save (journal.setTenant tenant))
      (journal.setTenant tenant) := by
  refine h.save rfl rfl rfl h.container (fun hnone => nomatch hnone) (fun other hother => ?_)
    (fun hnone => ?_) fun service part hpart hrestored => ?_
  · obtain rfl := Option.some.inj hother
    exact hkept
  · refine ⟨(h.deleting hnone).1, fun other hother => ?_, (h.deleting hnone).2.2⟩
    obtain rfl := Option.some.inj hother
    exact fun hrestored => hphase hrestored hnone
  · obtain ⟨⟨old, hold, holdphase⟩, haddress⟩ := h.ordered service part hpart hrestored
    exact ⟨⟨tenant, rfl, hlater old hold holdphase⟩, haddress⟩

theorem saveRestore (h : Matches runtime operation roles before now journal) (begun : String) :
    Matches runtime operation roles before (now.save (journal.setRestore begun))
      (journal.setRestore begun) :=
  h.save rfl rfl rfl h.container h.unrecorded h.tenant (fun hnone => nomatch hnone) h.ordered

/-- The host changes, and no journal. -/
theorem change (h : Matches runtime operation roles before now journal) {next : Host}
    (hcontainer : ∀ service, KeptContainer before next (containerName runtime service)
      (journal.containers.get service))
    (hunrecorded : journal.tenant = none → SameTenant runtime roles before next)
    (htenant : ∀ tenant ∈ journal.tenant, KeptTenant runtime roles before next tenant)
    (hdeleting : journal.restoreOperation = none →
      ∀ entry' ∈ next.endpoints.get runtime, before.endpoints.get runtime = some entry')
    (hordered : ∀ service, ∀ part ∈ journal.containers.get service, part.phase = .restored →
      ∀ entry' ∈ next.endpoints.get runtime, part.running = true → service.port ≠ none →
        Restarted runtime before next service (entry'.get service.text)) :
    Matches runtime operation roles before next journal where
  version := h.version
  own := h.own
  begun := h.begun
  container := hcontainer
  unrecorded := hunrecorded
  tenant := htenant
  deleting hnone := ⟨(h.deleting hnone).1, (h.deleting hnone).2.1, hdeleting hnone⟩
  ordered service part hpart hrestored :=
    ⟨(h.ordered service part hpart hrestored).1, hordered service part hpart hrestored⟩

/-! ### Containers -/

section

variable {service : Service} {part : Part} {address : String}

theorem named_of_part (h : Matches runtime operation roles before now journal)
    (hpart : journal.containers.get service = some part) :
    ∃ item item', before.named (containerName runtime service) = [item] ∧
      now.named (containerName runtime service) = [item'] ∧ KeptPart part item item' ∧
      part.id = item'.id := by
  have hkept := h.container service
  rw [hpart] at hkept
  obtain ⟨item, item', hbefore, hnow, hkept⟩ := hkept
  refine ⟨item, item', hbefore, hnow, hkept, hkept.id.trans ?_⟩
  exact (congrArg Prod.fst hkept.identity).symm

/-- A container is stopped, in a delete. -/
theorem stop (h : Matches runtime operation roles before now journal)
    (hpart : journal.containers.get service = some part)
    (hrestore : journal.restoreOperation = none) :
    Matches runtime operation roles before (now.stop part.id) journal := by
  obtain ⟨item, item', hbefore, hnow, hkept, hid⟩ := h.named_of_part hpart
  obtain ⟨hparts, htenants, hentry⟩ := h.deleting hrestore
  rw [hid]
  refine h.change (fun other => ?_) (fun hnone => ⟨(h.unrecorded hnone).logins,
    (h.unrecorded hnone).entry⟩) (fun tenant htenant => ?_) (fun _ => hentry)
    fun other part' hpart' hrestored => absurd hrestored (hparts other part' hpart')
  · by_cases hsame : other = service
    · subst hsame
      rw [hpart]
      exact ⟨item, _, hbefore, named_stop hnow,
        { hkept with
          stays := fun hrunning => nomatch hrunning
          restored := fun hrestored => absurd hrestored (hparts other part hpart) }⟩
    · exact (h.container other).frame
        (named_stop_of_ne hnow fun heq => hsame (containerName_injective heq))
  · have hold := h.tenant tenant htenant
    exact { hold with
      published := fun entry' hentry' =>
        ⟨entry', hentry entry' hentry', Republished.refl entry'⟩
      restored := fun hrestored => absurd hrestored (htenants tenant htenant) }

theorem restarted_start (h : Matches runtime operation roles before now journal)
    (hpart : journal.containers.get service = some part) {other : Service}
    {member : Option Member} (hrestarted : Restarted runtime before now other member) :
    Restarted runtime before (now.start part.id address) other member := by
  obtain ⟨item, item', hbefore, hnow, hkept, hid⟩ := h.named_of_part hpart
  rw [hid]
  by_cases hsame : other = service
  · obtain ⟨port, item₁, item₂, hport, hbefore₁, hnow₁, hrunning, hrunning', hmember⟩ := hrestarted
    subst hsame
    refine ⟨port, item₁, item₂, hport, hbefore₁, ?_, hrunning, hrunning', hmember⟩
    obtain rfl : item' = item₂ := by simpa using hnow.symm.trans hnow₁
    rw [named_start hnow, started_of_running hrunning']
  · exact hrestarted.frame
      (named_start_of_ne hnow fun heq => hsame (containerName_injective heq))

/-- A container that was running is started, in a restore. -/
theorem start (h : Matches runtime operation roles before now journal)
    (hpart : journal.containers.get service = some part) (hrunning : part.running = true) :
    Matches runtime operation roles before (now.start part.id address) journal := by
  refine h.change (fun other => ?_) (fun hnone => ⟨(h.unrecorded hnone).logins,
    (h.unrecorded hnone).entry⟩) (fun tenant htenant => ?_) (fun hnone => (h.deleting hnone).2.2)
    fun other part' hpart' hrestored entry' hentry' hrunning' hport => ?_
  · obtain ⟨item, item', hbefore, hnow, hkept, hid⟩ := h.named_of_part hpart
    by_cases hsame : other = service
    · subst hsame
      rw [hpart, hid]
      exact ⟨item, _, hbefore, named_start hnow,
        { hkept with
          identity := (identity_started item' address).trans hkept.identity
          stays := fun _ => hkept.running.symm.trans hrunning
          restored := fun _ => by rw [running_started, ← hkept.running, hrunning] }⟩
    · rw [hid]
      exact (h.container other).frame
        (named_start_of_ne hnow fun heq => hsame (containerName_injective heq))
  · exact (h.tenant tenant htenant).frame (fun _ _ => rfl) rfl
      fun _ _ => h.restarted_start hpart
  · exact h.restarted_start hpart
      ((h.ordered other part' hpart' hrestored).2 entry' hentry' hrunning' hport)

/-- The address of a running container is written into the published entry. -/
theorem publish (h : Matches runtime operation roles before now journal)
    (hpart : journal.containers.get service = some part) (hrunning : part.running = true)
    (htenant : ∃ tenant ∈ journal.tenant, tenant.phase = .restored) {item : Container}
    {entry : Entry} {port base : String} (hnow : now.named (containerName runtime service) = [item])
    (hitem : item.running = true) (hport : service.port = some port)
    (hbase : addressOf item port = some base) (hentry : now.endpoints.get runtime = some entry) :
    Matches runtime operation roles before
      (now.setEndpoints (now.endpoints.set runtime (entry.set service.text (.url base)))) journal := by
  set next := entry.set service.text (.url base)
  have hget : (now.endpoints.set runtime next).get runtime = some next := by
    rw [Dict.get_set, if_pos rfl]
  have hself : Restarted runtime before now service (next.get service.text) := by
    obtain ⟨item₁, item₂, hbefore, hnow', hkept, -⟩ := h.named_of_part hpart
    refine ⟨port, item₁, item, hport, hbefore, hnow, hkept.running.symm.trans hrunning, hitem, ?_⟩
    rw [Dict.get_set, if_pos rfl, hbase, Option.map_some]
  have hother : ∀ key, key ≠ service.text → next.get key = entry.get key :=
    fun key hkey => by rw [Dict.get_set, if_neg hkey]
  obtain ⟨restored, hmem, hphase⟩ := htenant
  refine h.change (fun other => (h.container other).frame rfl) (fun hnone => ?_)
    (fun tenant htenant => ?_) (fun hnone => absurd hphase ((h.deleting hnone).2.1 restored hmem))
    fun other part' hpart' hrestored entry' hentry' hrunning' hport' => ?_
  · rw [hnone] at hmem
    cases hmem
  · have hold := h.tenant tenant htenant
    refine { hold with published := fun entry' hentry' => ?_, restored := fun hrestored => ?_ }
    · obtain rfl : next = entry' := Option.some.inj (hget.symm.trans hentry')
      obtain ⟨first, hfirst, hrepublished⟩ := hold.published entry hentry
      refine ⟨first, hfirst, fun key => ?_⟩
      by_cases hkey : key = service.text
      · subst hkey
        exact .inr ⟨service, rfl, hself⟩
      · rw [hother key hkey]
        exact hrepublished key
    · refine ⟨(hold.restored hrestored).1, ?_⟩
      rw [endpoints_setEndpoints, hget, ← (hold.restored hrestored).2, hentry]
      rfl
  · obtain rfl : next = entry' := Option.some.inj (hget.symm.trans hentry')
    by_cases hsame : other = service
    · rw [hsame]
      exact hself
    · rw [hother _ fun heq => hsame (text_injective heq)]
      exact (h.ordered other part' hpart' hrestored).2 entry hentry hrunning' hport'

end

/-! ### The database, its logins and the published entry -/

section

variable {tenant : Tenant}

theorem tenant_unique (htenant : journal.tenant = some tenant) {other : Tenant}
    (hother : other ∈ journal.tenant) : other = tenant :=
  Option.some.inj (hother.symm.trans htenant)

/-- The logins or the entry change, once they are recorded. -/
theorem changeTenant (h : Matches runtime operation roles before now journal)
    (htenant : journal.tenant = some tenant) {next : Host}
    (hnamed : ∀ name, next.named name = now.named name)
    (hkept : KeptTenant runtime roles before next tenant)
    (hdeleting : journal.restoreOperation = none →
      ∀ entry' ∈ next.endpoints.get runtime, before.endpoints.get runtime = some entry')
    (hentry : ∀ entry' ∈ next.endpoints.get runtime, tenant.phase = .restored →
      now.endpoints.get runtime = some entry') :
    Matches runtime operation roles before next journal := by
  refine h.change (fun service => (h.container service).frame (hnamed _)) (fun hnone => ?_)
    (fun other hother => ?_) hdeleting fun service part hpart hrestored entry' hentry' hrunning
      hport => ?_
  · rw [htenant] at hnone
    cases hnone
  · rw [tenant_unique htenant hother]
    exact hkept
  · obtain ⟨⟨other, hother, hphase⟩, haddress⟩ := h.ordered service part hpart hrestored
    rw [tenant_unique htenant hother] at hphase
    exact (haddress entry' (hentry entry' hentry' hphase) hrunning hport).frame (hnamed _)

theorem terminate (h : Matches runtime operation roles before now journal) (names : List String) :
    Matches runtime operation roles before (now.terminate names) journal :=
  h.change (fun service => (h.container service).frame rfl)
    (fun hnone => ⟨(h.unrecorded hnone).logins, (h.unrecorded hnone).entry⟩)
    (fun tenant htenant => (h.tenant tenant htenant).frame (fun _ _ => rfl) rfl
      fun _ _ hrestarted => hrestarted)
    (fun hnone => (h.deleting hnone).2.2)
    fun service part hpart hrestored => (h.ordered service part hpart hrestored).2

theorem mem_opened {recorded : Dict String Bool} {name : String} :
    name ∈ opened recorded roles ↔ name ∈ roles ∧ recorded.get name = some true := by
  simp [opened]

/-- The logins that were open are closed, in a delete. -/
theorem close (h : Matches runtime operation roles before now journal)
    (htenant : journal.tenant = some tenant) (hrestore : journal.restoreOperation = none) :
    Matches runtime operation roles before (now.setRoles (opened tenant.roles roles) false)
      journal := by
  have hold := h.tenant tenant htenant
  refine h.changeTenant htenant (fun _ => rfl) ?_
    (fun _ => (h.deleting hrestore).2.2) fun _ hentry' _ => hentry'
  refine { hold with logins := fun name hname => ?_, restored := fun hrestored => ?_ }
  · by_cases hopened : name ∈ opened tenant.roles roles
    · exact .inr (get_setRoles_of_mem now hopened)
    · rw [get_setRoles_of_not_mem now hopened]
      exact hold.logins name hname
  · exact absurd hrestored ((h.deleting hrestore).2.1 tenant htenant)

/-- The logins that were open are opened again, and then all are as they were. -/
theorem logins_open (h : KeptTenant runtime roles before now tenant)
    (hnames : sameNames tenant.roles roles = true) {name : String} (hname : name ∈ roles) :
    (now.setRoles (opened tenant.roles roles) true).roles.get name = before.roles.get name := by
  by_cases hopened : name ∈ opened tenant.roles roles
  · rw [get_setRoles_of_mem now hopened, ← h.record name hname, (mem_opened.mp hopened).2]
  · rw [get_setRoles_of_not_mem now hopened]
    rcases h.logins name hname with hsame | hclosed
    · exact hsame
    · rw [sameNames, Bool.and_eq_true, List.all_eq_true] at hnames
      obtain ⟨login, hlogin⟩ := Option.isSome_iff_exists.mp (hnames.1 name hname)
      rw [← h.record name hname, hclosed, hlogin]
      cases login with
      | false => rfl
      | true => exact absurd (mem_opened.mpr ⟨hname, hlogin⟩) hopened

theorem openLogins (h : Matches runtime operation roles before now journal)
    (htenant : journal.tenant = some tenant) (hnames : sameNames tenant.roles roles = true) :
    Matches runtime operation roles before (now.setRoles (opened tenant.roles roles) true)
      journal := by
  have hold := h.tenant tenant htenant
  refine h.changeTenant htenant (fun _ => rfl) ?_ (fun hnone => (h.deleting hnone).2.2)
    fun _ hentry' _ => hentry'
  exact { hold with
    logins := fun name hname => .inl (logins_open hold hnames hname)
    restored := fun hrestored =>
      ⟨fun name hname => logins_open hold hnames hname, (hold.restored hrestored).2⟩ }

/-- The entry is taken away, in a delete. -/
theorem unpublish (h : Matches runtime operation roles before now journal)
    (htenant : journal.tenant = some tenant) (hrestore : journal.restoreOperation = none) :
    Matches runtime operation roles before
      (now.setEndpoints (now.endpoints.delete runtime)) journal := by
  have hold := h.tenant tenant htenant
  have hget : (now.endpoints.delete runtime).get runtime = none := by
    rw [Dict.get_delete, if_pos rfl]
  have habsent : ∀ entry' ∈ (now.endpoints.delete runtime).get runtime, False := by
    intro entry' hentry'
    rw [hget] at hentry'
    cases hentry'
  refine h.changeTenant htenant (fun _ => rfl) ?_
    (fun _ entry' hentry' => (habsent entry' hentry').elim)
    fun entry' hentry' _ => (habsent entry' hentry').elim
  exact { hold with
    published := fun entry' hentry' => (habsent entry' hentry').elim
    restored := fun hrestored => absurd hrestored ((h.deleting hrestore).2.1 tenant htenant) }

/-- The entry is published as it was. -/
theorem republish (h : Matches runtime operation roles before now journal)
    (htenant : journal.tenant = some tenant) {entry : Entry} (hentry : tenant.entry = some entry)
    (hnone : now.endpoints.get runtime = none) :
    Matches runtime operation roles before
      (now.setEndpoints (now.endpoints.set runtime entry)) journal := by
  have hold := h.tenant tenant htenant
  have hbefore : before.endpoints.get runtime = some entry := hold.entry.symm.trans hentry
  have hget : (now.endpoints.set runtime entry).get runtime = some entry := by
    rw [Dict.get_set, if_pos rfl]
  have hunpublished : tenant.phase ≠ .restored := by
    intro hrestored
    have hsame := (hold.restored hrestored).2
    rw [hnone, hbefore] at hsame
    cases hsame
  refine h.changeTenant htenant (fun _ => rfl) ?_ (fun _ entry' hentry' => ?_)
    fun _ _ hrestored => absurd hrestored hunpublished
  · refine { hold with
      published := fun entry' hentry' => ?_
      restored := fun hrestored => absurd hrestored hunpublished }
    obtain rfl : entry = entry' := Option.some.inj (hget.symm.trans hentry')
    exact ⟨entry, hbefore, Republished.refl entry⟩
  · exact hbefore.trans (hget.symm.trans hentry')

end

end Matches

end Sbarbase.Lifecycle.Proofs.Records
