/-!
# The configuration of a run without a configuration file

It asks for the builds that every run of the service makes. It is kept as text, so that it is read
and checked like any other configuration.
-/

namespace BuildMatrix.Config

/-- The text of the packaged configuration. -/
def stock : String :=
  "\n".intercalate
    ["# Build matrix used when no .ci-matrix.yml is present.",
      "checker: src/test/docker/docker-run-checks.sh",
      "defaults:",
      "  image: bookworm",
      "  args: --prefix=/usr --sysconfdir=/etc --with-systemdsystemunitdir=/etc/systemd/system --localstatedir=/var",
      "  jobs: 2",
      "builds:",
      "  - name: bookworm",
      "",
      "  - name: bookworm - 32 bit",
      "    platform: linux/386",
      "",
      "  - name: bookworm - gcc-12,distcheck",
      "    env:",
      "      CC: gcc-12",
      "      CXX: g++12",
      "      DISTCHECK: t",
      "",
      "  - name: bookworm - clang-15,chain-lint",
      "    env:",
      "      CC: clang-15",
      "      CXX: clang++-15",
      "      chain_lint: t",
      "    commandArgs: --workdir=/usr/src/workdir/workdir/workdir/workdir/workdir/workdir/workdir/workdir/workdir/workdir/workdir/workdir/workdir/workdir/workdir/",
      "",
      "  - name: coverage",
      "    coverage: true",
      "    jobs: 2",
      "",
      "  - name: focal",
      "    image: focal",
      "",
      "  - name: el8",
      "    image: el8",
      "",
      "  - name: fedora34",
      "    image: fedora34",
      "    env:",
      "      CFLAGS: -fanalyzer",
      "",
      "  - name: fedora38 - asan",
      "    image: fedora38",
      "    args: --enable-sanitizers",
      ""]

end BuildMatrix.Config
