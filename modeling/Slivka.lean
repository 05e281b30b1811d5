import Slivka.Backoff.Counter
import Slivka.Backoff.Invariant
import Slivka.Backoff.Poller
import Slivka.Python
import Slivka.LazyProperty
import Slivka.Yaml.Loader
import Slivka.Yaml.Includes
import Slivka.Yaml.Expand
import Slivka.Yaml.Construct
import Slivka.Yaml.Reads
import Slivka.Utils
