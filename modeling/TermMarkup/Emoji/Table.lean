/-
The emoji that have a shortcode, by group. A name stands without its colons.
-/

namespace TermMarkup.Emoji

/-- Shortcodes for faces. -/
def faces : List (String × String) := [
  ("grin", "😁"), ("grinning", "😀"), ("smile", "😄"), ("smiley", "😃"), ("laughing", "😆"),
  ("joy", "😂"), ("rofl", "🤣"), ("wink", "😉"), ("blush", "😊"), ("innocent", "😇"),
  ("heart_eyes", "😍"), ("kissing_heart", "😘"), ("yum", "😋"), ("stuck_out_tongue", "😛"),
  ("sunglasses", "😎"), ("nerd_face", "🤓"), ("thinking", "🤔"), ("neutral_face", "😐"),
  ("expressionless", "😑"), ("unamused", "😒"), ("roll_eyes", "🙄"), ("grimacing", "😬"),
  ("relieved", "😌"), ("pensive", "😔"), ("sleepy", "😪"), ("sleeping", "😴"), ("mask", "😷"),
  ("dizzy_face", "😵"), ("exploding_head", "🤯"), ("cowboy_hat_face", "🤠"), ("partying_face", "🥳"),
  ("confused", "😕"), ("worried", "😟"), ("slightly_frowning_face", "🙁"), ("open_mouth", "😮"),
  ("astonished", "😲"), ("flushed", "😳"), ("fearful", "😨"), ("cold_sweat", "😰"), ("cry", "😢"),
  ("sob", "😭"), ("scream", "😱"), ("tired_face", "😫"), ("rage", "😡"), ("angry", "😠"),
  ("skull", "💀"), ("poop", "💩"), ("clown_face", "🤡"), ("ghost", "👻"), ("alien", "👽"),
  ("robot", "🤖")]

/-- Shortcodes for gestures. -/
def gestures : List (String × String) := [
  ("wave", "👋"), ("ok_hand", "👌"), ("+1", "👍"), ("thumbsup", "👍"), ("-1", "👎"),
  ("thumbsdown", "👎"), ("clap", "👏"), ("raised_hands", "🙌"), ("pray", "🙏"), ("muscle", "💪"),
  ("point_right", "👉"), ("point_left", "👈"), ("point_up", "☝️"), ("point_down", "👇"),
  ("v", "✌️"), ("crossed_fingers", "🤞"), ("eyes", "👀")]

/-- Shortcodes for symbols. -/
def symbols : List (String × String) := [
  ("heart", "❤️"), ("broken_heart", "💔"), ("sparkles", "✨"), ("star", "⭐"), ("star2", "🌟"),
  ("zap", "⚡"), ("fire", "🔥"), ("boom", "💥"), ("100", "💯"), ("check", "✔️"),
  ("heavy_check_mark", "✔️"), ("white_check_mark", "✅"), ("x", "❌"), ("warning", "⚠️"),
  ("no_entry", "⛔"), ("question", "❓"), ("exclamation", "❗"), ("information_source", "ℹ️"),
  ("bulb", "💡"), ("bell", "🔔"), ("lock", "🔒"), ("unlock", "🔓"), ("key", "🔑"), ("link", "🔗"),
  ("hourglass", "⌛"), ("stopwatch", "⏱️"), ("arrow_right", "➡️"), ("arrow_left", "⬅️"),
  ("arrow_up", "⬆️"), ("arrow_down", "⬇️"), ("recycle", "♻️")]

/-- Shortcodes for objects. -/
def objects : List (String × String) := [
  ("rocket", "🚀"), ("tada", "🎉"), ("gift", "🎁"), ("trophy", "🏆"), ("medal", "🏅"), ("bug", "🐛"),
  ("wrench", "🔧"), ("hammer", "🔨"), ("gear", "⚙️"), ("package", "📦"), ("memo", "📝"),
  ("pencil2", "✏️"), ("book", "📖"), ("books", "📚"), ("clipboard", "📋"), ("calendar", "📅"),
  ("chart_with_upwards_trend", "📈"), ("chart_with_downwards_trend", "📉"), ("mag", "🔍"),
  ("computer", "💻"), ("keyboard", "⌨️"), ("floppy_disk", "💾"), ("file_folder", "📁"),
  ("open_file_folder", "📂"), ("email", "📧"), ("mailbox", "📫"), ("construction", "🚧"),
  ("rotating_light", "🚨"), ("coffee", "☕"), ("beer", "🍺"), ("pizza", "🍕"), ("cake", "🍰"),
  ("apple", "🍎")]

/-- Shortcodes for nature. -/
def nature : List (String × String) := [
  ("sunny", "☀️"), ("cloud", "☁️"), ("umbrella", "☔"), ("snowflake", "❄️"), ("rainbow", "🌈"),
  ("earth_americas", "🌎"), ("seedling", "🌱"), ("evergreen_tree", "🌲"), ("cactus", "🌵"),
  ("rose", "🌹"), ("dog", "🐶"), ("cat", "🐱"), ("crab", "🦀"), ("snake", "🐍"), ("turtle", "🐢"),
  ("unicorn", "🦄")]

/-- Every shortcode. -/
def table : List (String × String) :=
  faces ++ gestures ++ symbols ++ objects ++ nature

end TermMarkup.Emoji
