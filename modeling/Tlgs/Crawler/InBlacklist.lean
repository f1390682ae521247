import Tlgs.Crawler.Queue
import Tlgs.Url.Blacklist

/-!
# `inBlacklist`

The built-in blacklist that `shouldCrawl` asks first: two tables of hosts and URLs, and patterns of
URLs that are not worth a crawl. Its test for control characters is the one of `getNextCrawlPage`
written a second time, with the signed `char` taken into account.
-/
namespace Tlgs

open Bytes LexicalPath Interactive

/-- `blacklist_domains`. -/
def blacklistDomains : List Str :=
  [lit "example.com", lit "example.org", lit "example.net", lit "example.io", lit "example.us",
    lit "example.eu", lit "example.gov", lit "example.space", lit "localhost", lit "[::1]",
    lit "localhost.localdomain", lit "gus.guru", lit "ftrv.se", lit "git.thebackupbox.net",
    lit "mikelynch.org", lit "campaignwiki.org"]

/-- `blacklist_urls`. -/
def blacklistUrls : List Str :=
  [lit "gemini://www.youtube.com/", lit "gemini://tictactoe.lanterne.chilliet.eu",
    lit "gemini://kamalatta.ddnss.de/", lit "gemini://tweek.zyxxyz.eu/valentina/",
    lit "gemini://ansi.hrtk.in/", lit "gemini://matrix.kiwifarms.net",
    lit "gemini://songs.zachdecook.com/song.gmi.php/",
      lit "gemini://songs.zachdecook.com/chord.svg/",
    lit "gemini://gemini.zachdecook.com/cgi-bin/ccel.sh", lit "gemini://cadence.moe/chapo/",
    lit "gemini://nixo.xyz/reply/", lit "gemini://nixo.xyz/notify",
    lit "gemini://gemini.thebackupbox.net/queryresponse",
      lit "gemini://gem.garichankar.com/share_audio",
    lit "gemini://vps01.rdelaage.ovh/", lit "gemini://mastogem.picasoft.net",
    lit "gemini://runjimmyrunrunyoufuckerrun.com/fonts/",
    lit "gemini://runjimmyrunrunyoufuckerrun.com/tmp/", lit "gemini://houston.coder.town/search?",
    lit "gemini://houston.coder.town/search/", lit "gemini://marginalia.nu/search",
    lit "gemini://kennedy.gemi.dev/cached?", lit "gemini://geddit.pitr.ca/post?",
    lit "gemini://geddit.pitr.ca/c/", lit "gemini://geddit.glv.one/post?",
      lit "gemini://geddit.glv.one/c/",
    lit "gemini://gemini.marmaladefoo.com/cgi-bin/calc.cgi?",
    lit "gemini://gemini.circumlunar.space/users/fgaz/calculator/",
    lit "gemini://acidic.website/cgi-bin/weather.tcl?", lit "gemini://caolan.uk/weather/",
    lit "gemini://alexschroeder.ch/image_external", lit "gemini://alexschroeder.ch/html/",
    lit "gemini://alexschroeder.ch/diff/", lit "gemini://alexschroeder.ch/history/",
    lit "gemini://alexschroeder.ch/http", lit "gemini://alexschroeder.ch/https",
    lit "gemini://alexschroeder.ch/tag/", lit "gemini://alexschroeder.ch/raw/",
    lit "gemini://alexschroeder.ch/map/", lit "gemini://alexschroeder.ch/do/comment",
    lit "gemini://alexschroeder.ch/do/rc", lit "gemini://alexschroeder.ch/do/rss",
    lit "gemini://alexschroeder.ch/do/new", lit "gemini://alexschroeder.ch/do/more",
    lit "gemini://alexschroeder.ch/do/tags", lit "gemini://alexschroeder.ch/do/match",
    lit "gemini://alexschroeder.ch/do/search", lit "gemini://alexschroeder.ch/do/gallery/",
    lit "gemini://mozz.us/files/gemini-links.gmi", lit "gemini://gem.benscraft.info/mailing-list",
    lit "gemini://rawtext.club/~sloum/geminilist", lit "gemini://gemini.techrights.org/",
    lit "gemini://pon.ix.tc/cgi-bin/youtube.cgi?", lit "gemini://pon.ix.tc/youtube/",
    lit "gemini://taz.de/", lit "gemini://simplynews.metalune.xyz",
    lit "gemini://illegaldrugs.net/cgi-bin/news.php?",
      lit "gemini://illegaldrugs.net/cgi-bin/reader",
    lit "gemini://rawtext.club/~sloum/geminews", lit "gemini://gemini.cabestan.tk/hn",
    lit "gemini://hn.filiuspatris.net/", lit "gemini://schmittstefan.de/de/nachrichten/",
    lit "gemini://gmi.noulin.net/mobile", lit "gemini://jpfox.fr/rss/",
    lit "gemini://illegaldrugs.net/cgi-bin/news.php/", lit "gemini://dw.schettler.net/",
    lit "gemini://dioskouroi.xyz/top", lit "gemini://drewdevault.com/cgi-bin/hn.py",
    lit "gemini://tobykurien.com/maverick/", lit "gemini://gemini.knusbaum.com",
      lit "gemini://wp.pitr.ca/",
    lit "gemini://wp.glv.one/", lit "gemini://wikipedia.geminet.org/",
    lit "gemini://wikipedia.geminet.org:1966", lit "gemini://vault.transjovian.org/",
    lit "gemini://egsam.pitr.ca/", lit "gemini://egsam.glv.one/",
      lit "gemini://gemini.conman.org/test",
    lit "gemini://chat.mozz.us/stream", lit "gemini://chat.mozz.us/submit",
      lit "gemini://80h.dev/agena/",
    lit "gemini://astrobotany.mozz.us/app/", lit "gemini://carboncopy.xyz/cgi-bin/apache.gex/",
    lit "gemini://gemini.susa.net/cgi-bin/search?", lit "gemini://gemini.susa.net/cgi-bin/twitter?",
    lit "gemini://gemini.susa.net/cgi-bin/vim-search?",
    lit "gemini://gemini.susa.net/cgi-bin/links_stu.lua?",
      lit "gemini://gemini.spam.works/textfiles/",
    lit "gemini://gemini.spam.works/mirrors/textfiles/",
    lit "gemini://gemini.spam.works/users/dvn/archive/",
      lit "gemini://gemini.thebackupbox.net/radio",
    lit "gemini://higeki.jp/radio", lit "gemini://drewdevault.com/cgi-bin/web.sh?",
    lit "gemini://gemiprox.pollux.casa/", lit "gemini://gemiprox.pollux.casa:1966",
    lit "gemini://ecs.d2evs.net/proxy/", lit "gemini://gmi.si3t.ch/www-gem/",
    lit "gemini://orrg.clttr.info/orrg.pl", lit "gemini://mysidard.com/services/hackernews/",
    lit "gemini://gem.denarii.cloud/", lit "gemini://cfdocs.wetterberg.nu/",
      lit "gemini://godocs.io",
    lit "gemini://emacswiki.org/", lit "gemini://alexschroeder.ch/", lit "gemini://si3t.ch/code/",
    lit "gemini://tilde.club/~filip/library/", lit "gemini://gemini.bortzmeyer.org/rfc-mirror/",
    lit "gemini://chris.vittal.dev/rfcs", lit "gemini://going-flying.com/git/cgi/gemini.git/",
    lit "gemini://szczezuja.flounder.online/git/", lit "gemini://gmi.noulin.net/rfc",
    lit "gemini://gmi.noulin.net/man",
      lit "gemini://hellomouse.net/user-pages/handicraftsman/ietf/",
    lit "gemini://tilde.team/~orichalcumcosmonaut/darcs/website/prod/",
    lit "gemini://gemini.omarpolo.com/cgi", lit "gemini://gemini.rmf-dev.com",
    lit "gemini://musicbrainz.uploadedlobster.com/",
      lit "gemini://musicbrainz.uploadedlobster.com/",
    lit "gemini://gemini.lost-frequencies.eu/posts/archive", lit "gemini://blitter.com/",
    lit "gemini://ake.crabdance.com:1966/message/", lit "gemini://iceworks.cc/z/",
    lit "gemini://ake.crabdance.com:1966/channel/", lit "gemini://gemini.autonomy.earth/posts/",
    lit "gemini://lists.flounder.online/gemini/threads/messages/",
    lit "gemini://tilde.pink/~bencollver/gamefaqs/", lit "gemini://tilde.pink/~bencollver/gamefaq/",
    lit "gemini://gemini.quux.org/0/Archives", lit "gemini://gemini.rob-bolton.co.uk/songs",
    lit "gemini://gthudson.xyz/cgi-bin/quietplace.cgi",
      lit "gemini://futagoza.gamiri.com/gmninkle/",
    lit "gemini://alexey.shpakovsky.ru/maze", lit "gemini://jsreed5.org/live/cgi-bin/twisty/",
    lit "gemini://gemini.theuse.net/", lit "gemini://202x.moe/resonance",
      lit "gemini://gmi.skyjake.fi/",
    lit "gemini://warmedal.se/.well-known/", lit "gemini://www.bonequest.com/",
    lit "gemini://kennedy.gemi.dev/page-info?id=", lit "gemini://gemi.dev/xkcd",
    lit "gemini://gemi.dev/cgi-bin/", lit "gemini://gemlog.stargrave.org/",
    lit "gemini://jsreed5.org/oeis/"]

/-- `blacklist`, after `call_once`; the value of `default_port_` before its assignment is never
used, as every entry has a scheme. -/
def blacklist : Except Str UrlBlacklist :=
  UrlBlacklist.addAll [] (blacklistUrls.map fun url => (0, url))

/-- `c >= 0 && c < 32` for a `char`, which is signed. -/
def hasAsciiControl (urlStr : Str) : Bool :=
  urlStr.any fun c => decide (0 ≤ c.toInt8) && decide (c.toInt8 < 32)

/-- The elements of a `std::filesystem::path`: the root, the names, and an empty one for a slash at
the end. -/
def pathElements (path : Str) : List Str :=
  let names := (path.splitOn slash).filter (· ≠ [])
  (if path.head? = some slash then [[slash]] else []) ++ names ++
    if names ≠ [] ∧ path.getLast? = some slash then [[]] else []

/-- The loop that counts elements in `dirname_count`, those before being `seen`. -/
def repeatsElement : List Str → List Str → Bool
  | _, [] => false
  | seen, part :: parts => decide (3 ≤ seen.count part + 1) || repeatsElement (part :: seen) parts

/-- `commits/[a-z0-9A-Z]+[/\.].*`, which the whole text must match; `.` stops at a line end. -/
def matchesCommit (commit : Str) : Bool :=
  let rest := commit.drop 8
  match rest.dropWhile isalnum with
  | mark :: tail =>
    startsWith commit (lit "commits/") && rest.takeWhile isalnum ≠ [] &&
      (mark = slash || mark = fullStop) && tail.all fun c => c != 10 && c != 13
  | [] => false

/-- Whether a URL text is on the blacklist, `uninit` being the values of `default_port_` before it
is assigned. An exception of `add` leaves the call. -/
def inBlacklist (uninit : Str → Int) (urlStr : Str) : Except Str Bool := do
  let url := Url.ofString (uninit urlStr) urlStr
  let blacklist ← blacklist
  pure <|
    -- the domain or the URL
    blacklistDomains.contains url.host ||
    blacklist.isBlocked (Url.ofString (uninit url.str) url.str) ||
    -- localhost and files that are not needed
    url.path = lit "/robots.txt" || url.path = lit "/favicon.txt" ||
    startsWith url.host (lit "127.0.0.") ||
    endsWith url.host (lit ".local") || endsWith url.host (lit ".localhost") ||
    endsWith url.host (lit ".localdomain") ||
    -- git repositories
    startsWith url.path (lit "/git/") || startsWith url.host (lit "git.") ||
    contains (lit ".git/tree/") url.str || contains (lit ".git/blob/") url.str ||
    endsWith url.str (lit "/git.sh") ||
    -- archives
    contains (lit "/~xkcd/") url.str || contains (lit "/xkcd/") url.str ||
    -- orbits
    endsWith url.path (lit "/next.cgi") || endsWith url.path (lit "/prev.cgi") ||
    endsWith url.path (lit "/rand.cgi") || endsWith url.path (lit "/next") || endsWith url.path
      (lit "/prev") ||
    endsWith url.path (lit "/rand") || endsWith url.path (lit "/next.gmi") ||
    endsWith url.path (lit "/prev.gmi") || endsWith url.path (lit "/rand.gmi") ||
    endsWith url.host (lit ".onion") ||
    contains (lit "gopher:/:/") url.str || contains (lit "rfc-mirror") url.str ||
    hasAsciiControl url.str ||
    -- one directory three times
    (decide (3 ≤ (pathElements url.path).length) && repeatsElement [] (pathElements url.path)) ||
    match find (lit "commits/") url.str with
    | some n => matchesCommit (url.str.drop n)
    | none => false

/-! ### The two tests for control characters -/

/-- A byte in 0x00..0x1F. -/
def HasControl (urlStr : Str) : Prop := ∃ c ∈ urlStr, c < 0x20

/-- As a signed `char`, a byte from 0x80 on is negative. -/
theorem toInt8_lt_iff (c : UInt8) : c.toInt8 < 0x20 ↔ c < 0x20 ∨ 0x80 ≤ c := by
  revert c
  exact forall_byte (by decide +kernel)

theorem control_iff (c : UInt8) : 0 ≤ c.toInt8 ∧ c.toInt8 < 32 ↔ c < 0x20 := by
  revert c
  exact forall_byte (by decide +kernel)

theorem hasControl_iff (urlStr : Str) :
    hasControl urlStr = true ↔ HasControl urlStr ∨ ∃ c ∈ urlStr, 0x80 ≤ c := by
  simp only [hasControl, List.any_eq_true, decide_eq_true_eq, toInt8_lt_iff, HasControl]
  constructor
  · rintro ⟨c, member, control | high⟩
    · exact .inl ⟨c, member, control⟩
    · exact .inr ⟨c, member, high⟩
  · rintro (⟨c, member, control⟩ | ⟨c, member, high⟩)
    · exact ⟨c, member, .inl control⟩
    · exact ⟨c, member, .inr high⟩

theorem hasAsciiControl_iff (urlStr : Str) : hasAsciiControl urlStr = true ↔ HasControl urlStr := by
  simp only [hasAsciiControl, List.any_eq_true, Bool.and_eq_true, decide_eq_true_eq,
    control_iff, HasControl]

/-- The blacklist has every URL with a control character. -/
theorem inBlacklist_of_control {uninit : Str → Int} {urlStr : Str} {listed : Bool}
    (control : HasControl (Url.ofString (uninit urlStr) urlStr).str)
    (answered : inBlacklist uninit urlStr = .ok listed) : listed = true := by
  have found := (hasAsciiControl_iff _).mpr control
  cases built : blacklist with
  | error x =>
    rw [inBlacklist, built] at answered
    cases answered
  | ok entries =>
    rw [inBlacklist, built] at answered
    cases answered
    simp [found]

/-- However the outside answers, `getNextCrawlPage` does not hand the URL out, and does not ask
whether to crawl it. -/
def RefusedUnasked (env : Env) (urlStr : Str) : Prop :=
  ∀ fails r after result, env.Run fails (offer env urlStr) r result after →
    (∀ url, result ≠ .ok (some url)) ∧
      ∃ events, after.log = r.log ++ events ∧ ∀ event ∈ events, ∀ asked,
        event.op ≠ .shouldCrawl asked

theorem refusedUnasked_iff (env : Env) (urlStr : Str) :
    RefusedUnasked env urlStr ↔ hasControl urlStr = true := by
  constructor
  · intro refused
    by_contra plain
    rw [Bool.not_eq_true] at plain
    -- where everything may be crawled, the URL is handed out
    have ends : ((Outside.serving []).run env (offer env urlStr) ⟨World.empty, []⟩).1 =
        .ok (some (Url.ofString (env.uninitUrl urlStr) urlStr).str) := by
      simp only [offer, canCrawl, plain]
      rfl
    exact (refused never _ _ _ (Outside.run_of_ends serving_never ends)).1 _ rfl
  · intro control fails r after result run
    have blocks : offer env urlStr = markBlocked urlStr >>= fun _ => pure none := by
      simp only [offer, canCrawl, control]
      rfl
    have within : Within (fun op => ∀ asked, op ≠ .shouldCrawl asked) (fun _ => True)
        (offer env urlStr) := by
      rw [blocks]
      refine within_bind (within_bind (within_perform ?_) fun _ => within_perform ?_) fun _ =>
        within_pure
      · intro asked same
        cases same
      · intro asked same
        cases same
    refine ⟨?_, log_of_runs within run⟩
    rw [blocks] at run
    rintro url rfl
    rcases runs_bind.mp run with ⟨_, _, _, ended⟩ | ⟨_, _, ended⟩
    · cases ended.1
    · cases ended

/-- `getNextCrawlPage` refuses every URL that the blacklist has for a control character, and besides
them those with a byte from 0x80 on. -/
theorem control_checks_agree_iff (env : Env) (urlStr : Str) :
    ((RefusedUnasked env urlStr ↔ HasControl urlStr) ∧
      (hasAsciiControl urlStr = true ↔ HasControl urlStr) ∧
        ∀ uninit listed, HasControl (Url.ofString (uninit urlStr) urlStr).str →
          inBlacklist uninit urlStr = .ok listed → listed = true) ↔
      HasControl urlStr ∨ ∀ c ∈ urlStr, c < 0x80 := by
  rw [refusedUnasked_iff, hasControl_iff]
  have ascii : (∀ c ∈ urlStr, c < 0x80) ↔ ¬∃ c ∈ urlStr, 0x80 ≤ c := by
    simp only [not_exists, not_and, UInt8.not_le]
  rw [ascii]
  constructor
  · -- the signed comparison takes every byte from 0x80 for a control character
    rintro ⟨refuses, _⟩
    by_cases high : ∃ c ∈ urlStr, 0x80 ≤ c
    · exact .inl (refuses.mp (.inr high))
    · exact .inr high
  · intro agrees
    refine ⟨⟨fun refused => ?_, .inl⟩, hasAsciiControl_iff urlStr, fun _ _ =>
      inBlacklist_of_control⟩
    rcases refused with control | high
    · exact control
    · exact agrees.resolve_right fun low => low high

/-- `gemini://h/é` is never crawled, though it has no control character. -/
theorem accent_refused :
    RefusedUnasked Env.small (lit "gemini://h/é") ∧ ¬HasControl (lit "gemini://h/é") ∧
      hasAsciiControl (lit "gemini://h/é") = false := by
  refine ⟨(refusedUnasked_iff _ _).mpr (by decide), ?_, by decide⟩
  rw [← hasAsciiControl_iff]
  decide

end Tlgs
